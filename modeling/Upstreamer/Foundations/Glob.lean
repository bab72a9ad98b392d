import Mathlib.Computability.Language
import Mathlib.Data.List.Infix

/-!
# Glob patterns

A glob pattern is a text in which one character, the wildcard, stands for any text and every other
character for itself. `Glob.language` is the product of the languages of its characters.

A common way to match a pattern with one wildcard is to test the text before it as a prefix of the
value and the text after it as a suffix. The two tests see the value independently, so they also
accept a value in which the two texts overlap (`prefix_and_suffix_iff`); they decide the language
exactly when no text is both an end of the one and a beginning of the other
(`prefix_and_suffix_exact_iff`).
-/

set_option autoImplicit false

namespace Upstreamer.Foundations.Glob

universe u

variable {α : Type u}

/-- The pattern has exactly one wildcard, with the given texts before and after it. -/
structure OneStar (star : α) (pattern before after : List α) : Prop where
  eq : pattern = before ++ star :: after
  before_plain : star ∉ before
  after_plain : star ∉ after

/-- Some nonempty text is an end of `before` and a beginning of `after`. -/
def Overlap (before after : List α) : Prop := ∃ m, m ≠ [] ∧ m <:+ before ∧ m <+: after

/-- **Independent tests.** A value has one text as a prefix and another as a suffix when it is the
two with a middle between them, or when an end of the one is a beginning of the other in it. -/
theorem prefix_and_suffix_iff {before after v : List α} :
    before <+: v ∧ after <:+ v ↔
      (∃ m, before ++ (m ++ after) = v) ∨
        ∃ s m t, m ≠ [] ∧ before = s ++ m ∧ after = m ++ t ∧ s ++ (m ++ t) = v := by
  constructor
  · rintro ⟨⟨t, rfl⟩, s, hs⟩
    -- compare where the prefix ends with where the suffix begins
    rcases List.append_eq_append_iff.1 hs with ⟨m, hbefore, hafter⟩ | ⟨m, hs, ht⟩
    · by_cases hm : m = []
      · subst hm
        refine Or.inl ⟨[], ?_⟩
        rw [hafter]
        rfl
      · refine Or.inr ⟨s, m, t, hm, hbefore, hafter, ?_⟩
        rw [hbefore, List.append_assoc]
    · exact Or.inl ⟨m, by rw [ht]⟩
  · rintro (⟨m, rfl⟩ | ⟨s, m, t, -, rfl, rfl, rfl⟩)
    · refine ⟨List.prefix_append before (m ++ after), ?_⟩
      rw [← List.append_assoc]
      exact List.suffix_append (before ++ m) after
    · refine ⟨?_, List.suffix_append s (m ++ t)⟩
      rw [← List.append_assoc]
      exact List.prefix_append (s ++ m) t

section Language

variable [DecidableEq α] (star : α)

/-- The texts that one character of a pattern stands for. -/
def symbol (c : α) : Language α := if c = star then ⊤ else {[c]}

/-- The texts that a pattern stands for. -/
def language (pattern : List α) : Language α := (pattern.map (symbol star)).prod

variable {star}

@[simp]
theorem mem_language_nil {v : List α} : v ∈ language star [] ↔ v = [] := Language.mem_one v

theorem mem_language_star_cons {p v : List α} :
    v ∈ language star (star :: p) ↔ ∃ u w, w ∈ language star p ∧ u ++ w = v := by
  rw [language, List.map_cons, List.prod_cons, symbol, if_pos rfl, Language.mem_mul]
  constructor
  · rintro ⟨u, -, w, hw, h⟩
    exact ⟨u, w, hw, h⟩
  · rintro ⟨u, w, hw, h⟩
    exact ⟨u, Set.mem_univ u, w, hw, h⟩

theorem mem_language_cons_of_ne {c : α} (hc : c ≠ star) {p v : List α} :
    v ∈ language star (c :: p) ↔ ∃ w ∈ language star p, c :: w = v := by
  rw [language, List.map_cons, List.prod_cons, symbol, if_neg hc, Language.mem_mul]
  constructor
  · rintro ⟨u, hu, w, hw, h⟩
    obtain rfl : u = [c] := hu
    exact ⟨w, hw, h⟩
  · rintro ⟨w, hw, h⟩
    exact ⟨[c], rfl, w, hw, h⟩

/-- The characters before the first wildcard stand for themselves. -/
theorem mem_language_append {before : List α} (hplain : star ∉ before) {p v : List α} :
    v ∈ language star (before ++ p) ↔ ∃ w ∈ language star p, before ++ w = v := by
  induction before generalizing v with
  | nil => simp
  | cons c before ih =>
    rw [List.mem_cons, not_or] at hplain
    rw [List.cons_append, mem_language_cons_of_ne (Ne.symm hplain.1)]
    simp only [ih hplain.2]
    constructor
    · rintro ⟨_, ⟨w, hw, rfl⟩, rfl⟩
      exact ⟨w, hw, rfl⟩
    · rintro ⟨w, hw, rfl⟩
      exact ⟨before ++ w, ⟨w, hw, rfl⟩, rfl⟩

/-- A pattern without wildcards stands for itself. -/
theorem mem_language_of_notMem {p v : List α} (hplain : star ∉ p) :
    v ∈ language star p ↔ v = p := by
  have h := mem_language_append (p := []) (v := v) hplain
  rw [List.append_nil] at h
  rw [h]
  constructor
  · rintro ⟨w, hw, rfl⟩
    rw [mem_language_nil.1 hw, List.append_nil]
  · rintro rfl
    exact ⟨[], mem_language_nil.2 rfl, List.append_nil v⟩

/-- A pattern with one wildcard stands for the texts between which it stands, with any text in the
middle. -/
theorem OneStar.mem_language {pattern before after v : List α}
    (h : OneStar star pattern before after) :
    v ∈ language star pattern ↔ ∃ m, before ++ (m ++ after) = v := by
  rw [h.eq, mem_language_append h.before_plain]
  constructor
  · rintro ⟨w, hw, rfl⟩
    obtain ⟨m, w', hw', rfl⟩ := mem_language_star_cons.1 hw
    have hafter : w' = after := (mem_language_of_notMem h.after_plain).1 hw'
    exact ⟨m, by rw [hafter]⟩
  · rintro ⟨m, rfl⟩
    refine ⟨m ++ after, mem_language_star_cons.2 ⟨m, after, ?_, rfl⟩, rfl⟩
    exact (mem_language_of_notMem h.after_plain).2 rfl

/-- The wildcards of a pattern may stand for nothing. -/
theorem filter_mem_language (pattern : List α) :
    pattern.filter (fun c => decide (c ≠ star)) ∈ language star pattern := by
  induction pattern with
  | nil => exact mem_language_nil.2 rfl
  | cons c p ih =>
    by_cases hc : c = star
    · subst hc
      rw [List.filter_cons_of_neg (by simp)]
      exact mem_language_star_cons.2 ⟨[], _, ih, rfl⟩
    · rw [List.filter_cons_of_pos (by simpa using hc)]
      exact (mem_language_cons_of_ne hc).2 ⟨_, ih, rfl⟩

/-- A pattern with a wildcard stands for a text other than itself. -/
theorem exists_mem_language_ne {pattern : List α} (h : star ∈ pattern) :
    ∃ v ∈ language star pattern, v ≠ pattern := by
  refine ⟨_, filter_mem_language pattern, fun heq => ?_⟩
  rw [← heq] at h
  simpa using (List.mem_filter.1 h).2

/-- **When independent tests are exact.** The tests decide the language of the pattern exactly when
the text before the wildcard and the text after it cannot overlap. -/
theorem prefix_and_suffix_exact_iff {pattern before after : List α}
    (h : OneStar star pattern before after) :
    (∀ v, before <+: v ∧ after <:+ v ↔ v ∈ language star pattern) ↔ ¬ Overlap before after := by
  simp only [prefix_and_suffix_iff, h.mem_language, or_iff_left_iff_imp]
  constructor
  · rintro hexact ⟨m, hm, ⟨s, rfl⟩, ⟨t, rfl⟩⟩
    -- the value that joins the two texts at the overlap is too short to hold both of them
    obtain ⟨u, hu⟩ := hexact (s ++ (m ++ t)) ⟨s, m, t, hm, rfl, rfl, rfl⟩
    have hlength := congrArg List.length hu
    have hpos := List.length_pos_iff.2 hm
    simp only [List.length_append] at hlength
    omega
  · rintro hno v ⟨s, m, t, hm, rfl, rfl, -⟩
    exact absurd ⟨m, hm, List.suffix_append s m, List.prefix_append m t⟩ hno

end Language

/-! ## The sides are determined -/

section Sides

/-- What is a prefix of two texts that differ after `b` ends within `b`. -/
theorem prefix_of_prefix_append_cons {p b u w : List α} {x y : α} (hne : x ≠ y)
    (hx : p <+: b ++ x :: u) (hy : p <+: b ++ y :: w) : p <+: b := by
  rcases List.prefix_or_prefix_of_prefix hx (List.prefix_append b (x :: u)) with h | ⟨t, rfl⟩
  · exact h
  · -- what it has after `b` would begin with both characters
    rw [List.prefix_append_right_inj] at hx hy
    cases t with
    | nil => rw [List.append_nil]
    | cons c t =>
      have hcx := (List.cons_prefix_cons.1 hx).1
      have hcy := (List.cons_prefix_cons.1 hy).1
      exact absurd (hcx.symm.trans hcy) hne

theorem suffix_of_suffix_append_cons {p b u w : List α} {x y : α} (hne : x ≠ y)
    (hx : p <:+ u ++ x :: b) (hy : p <:+ w ++ y :: b) : p <:+ b := by
  rw [← List.reverse_prefix] at hx hy ⊢
  rw [List.reverse_append, List.reverse_cons, List.append_assoc, List.singleton_append] at hx hy
  exact prefix_of_prefix_append_cons hne hx hy

/-- **The independent tests determine the two texts.** -/
theorem sides_eq_of_tests_eq {before after before' after' : List α} {x y : α} (hne : x ≠ y)
    (h : ∀ v, before <+: v ∧ after <:+ v ↔ before' <+: v ∧ after' <:+ v) :
    before = before' ∧ after = after' := by
  -- the values in which a single character stands between the two texts, for two characters
  have hself : ∀ (b a : List α) (c : α), b <+: b ++ c :: a ∧ a <:+ b ++ c :: a := fun b a c =>
    ⟨List.prefix_append b (c :: a), (List.suffix_cons c a).trans (List.suffix_append b (c :: a))⟩
  have hbefore' := prefix_of_prefix_append_cons hne ((h _).1 (hself before after x)).1
    ((h _).1 (hself before after y)).1
  have hbefore := prefix_of_prefix_append_cons hne ((h _).2 (hself before' after' x)).1
    ((h _).2 (hself before' after' y)).1
  have hafter' := suffix_of_suffix_append_cons hne ((h _).1 (hself before after x)).2
    ((h _).1 (hself before after y)).2
  have hafter := suffix_of_suffix_append_cons hne ((h _).2 (hself before' after' x)).2
    ((h _).2 (hself before' after' y)).2
  exact ⟨hbefore.eq_of_length_le hbefore'.length_le, hafter.eq_of_length_le hafter'.length_le⟩

end Sides

section Split

variable [DecidableEq α] {star : α}

/-- Splitting at the wildcard gives two parts exactly when there is one. -/
theorem splitOn_eq_pair_iff {pattern before after : List α} :
    pattern.splitOn star = [before, after] ↔ OneStar star pattern before after := by
  constructor
  · intro h
    have hjoin : [star].intercalate (pattern.splitOn star) = pattern :=
      List.intercalate_splitOn star
    have heq : pattern = before ++ star :: after := by
      rw [← hjoin, h]
      simp [List.intercalate]
    -- a wildcard in one of the parts would have been split at as well
    have hparts : before.splitOn star ++ after.splitOn star = [before, after] := by
      rw [← List.splitOn_append_cons_self, ← heq, h]
    have hlength := congrArg List.length hparts
    have hpos : ∀ l : List α, 0 < (l.splitOn star).length := fun l =>
      List.length_pos_iff.2 (List.splitOn_ne_nil star l)
    have hplain : ∀ l : List α, (l.splitOn star).length = 1 → star ∉ l := by
      intro l hl hmem
      obtain ⟨a, b, rfl⟩ := List.append_of_mem hmem
      rw [List.splitOn_append_cons_self, List.length_append] at hl
      have ha := hpos a
      have hb := hpos b
      omega
    have hbefore := hpos before
    have hafter := hpos after
    rw [List.length_append] at hlength
    simp only [List.length_cons, List.length_nil] at hlength
    exact ⟨heq, hplain before (by omega), hplain after (by omega)⟩
  · rintro ⟨rfl, hbefore, hafter⟩
    rw [List.splitOn_append_cons_self_of_not_mem hbefore, List.splitOn_eq_singleton hafter]

/-- The sides of the wildcard are determined by the pattern. -/
theorem OneStar.unique {pattern before after before' after' : List α}
    (h : OneStar star pattern before after) (h' : OneStar star pattern before' after') :
    before = before' ∧ after = after' := by
  have hsplit := (splitOn_eq_pair_iff.2 h).symm.trans (splitOn_eq_pair_iff.2 h')
  simpa using hsplit

end Split

end Upstreamer.Foundations.Glob
