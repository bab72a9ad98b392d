import Mathlib.Data.List.DropRight
import Mathlib.Data.List.Infix

/-!
# Text operations

The operations on text that the standard library of the modelled language offers, on Lean strings
read as their characters, and the facts about them that comparisons of derived texts need: a text is
its own trim exactly when it does not end in the trimmed character (`trimEndMatches_eq_self_iff`),
and two texts joined by a separator agree exactly when their parts do or when one separator
occurrence stands inside a part of the other (`joined_eq_iff`). `takeUntil` and `dropUntil` split a
text where a character of a kind first occurs; a part without such characters that is put before it
does not change where that is.
-/

set_option autoImplicit false

namespace Upstreamer.Foundations

/-- Remove every occurrence of `c` at the end. -/
def trimEndMatches (c : Char) (s : String) : String :=
  String.ofList (s.toList.rdropWhile (· == c))

/-- Whether the text ends in the character `c`. -/
def endsWithChar (c : Char) (s : String) : Bool :=
  s.toList.getLast? == some c

/-- Whether `s` begins with `p`. -/
def startsWith (s p : String) : Bool := p.toList.isPrefixOf s.toList

/-- Whether `s` ends with `p`. -/
def endsWith (s p : String) : Bool := p.toList.isSuffixOf s.toList

theorem startsWith_eq_true_iff {s p : String} :
    startsWith s p = true ↔ p.toList <+: s.toList :=
  List.isPrefixOf_iff_prefix

theorem startsWith_append (s t : String) : startsWith (s ++ t) s = true := by
  rw [startsWith_eq_true_iff, String.toList_append]
  exact List.prefix_append _ _

theorem trimEndMatches_eq_self_iff (c : Char) (s : String) :
    trimEndMatches c s = s ↔ endsWithChar c s = false := by
  rw [trimEndMatches, ← String.toList_inj, String.toList_ofList, List.rdropWhile_eq_self_iff,
    endsWithChar]
  cases hs : s.toList.getLast? with
  | none =>
    have hnil : s.toList = [] := List.getLast?_eq_none_iff.1 hs
    simp [hnil]
  | some d =>
    have hne : s.toList ≠ [] := by
      intro h
      rw [h] at hs
      simp at hs
    rw [List.getLast?_eq_some_getLast hne, Option.some.injEq] at hs
    simp [hne, hs]

theorem trimEndMatches_trimEndMatches (c : Char) (s : String) :
    trimEndMatches c (trimEndMatches c s) = trimEndMatches c s := by
  rw [trimEndMatches, trimEndMatches, String.toList_ofList, List.rdropWhile_idempotent]

theorem endsWithChar_append_of_ne_empty (c : Char) (s : String) {t : String} (ht : t ≠ "") :
    endsWithChar c (s ++ t) = endsWithChar c t := by
  have hne : t.toList ≠ [] := by
    intro h
    exact ht (String.toList_inj.1 (by rw [h]; rfl))
  rw [endsWithChar, endsWithChar, String.toList_append, List.getLast?_append_of_ne_nil _ hne]

/-- Two lists with a marked element in each agree exactly when the parts before and after it agree
or one of the left parts is the other with the marked element and a middle part after it, which the
right parts compensate. -/
theorem append_cons_eq_append_cons_iff {α : Type*} (c : α) (a b a' b' : List α) :
    a ++ c :: b = a' ++ c :: b' ↔
      (a = a' ∧ b = b') ∨
      (∃ m, a' = a ++ c :: m ∧ b = m ++ c :: b') ∨
      (∃ m, a = a' ++ c :: m ∧ b' = m ++ c :: b) := by
  constructor
  · intro h
    rcases List.append_eq_append_iff.1 h with ⟨m, ha, hb⟩ | ⟨m, ha, hb⟩
    · cases m with
      | nil =>
        simp only [List.append_nil, List.nil_append, List.cons.injEq, true_and] at ha hb
        exact Or.inl ⟨ha.symm, hb⟩
      | cons d m =>
        simp only [List.cons_append, List.cons.injEq] at hb
        obtain ⟨rfl, hb⟩ := hb
        exact Or.inr (Or.inl ⟨m, ha, hb⟩)
    · cases m with
      | nil =>
        simp only [List.append_nil, List.nil_append, List.cons.injEq, true_and] at ha hb
        exact Or.inl ⟨ha, hb.symm⟩
      | cons d m =>
        simp only [List.cons_append, List.cons.injEq] at hb
        obtain ⟨rfl, hb⟩ := hb
        exact Or.inr (Or.inr ⟨m, ha, hb⟩)
  · rintro (⟨rfl, rfl⟩ | ⟨m, rfl, rfl⟩ | ⟨m, rfl, rfl⟩)
    · rfl
    · simp
    · simp

/-- What is a prefix of a joined text and does not contain the separator is a prefix of the part
before it. -/
theorem prefix_append_cons_iff {α : Type*} {c : α} {l a b : List α} (h : c ∉ l) :
    l <+: a ++ c :: b ↔ l <+: a := by
  refine ⟨fun hl => ?_, fun hl => hl.trans (List.prefix_append a (c :: b))⟩
  rcases Nat.lt_or_ge a.length l.length with hlt | hle
  · -- a longer one would reach the separator
    have ha : a ++ [c] <+: l := by
      have hlong : a ++ [c] <+: a ++ c :: b := ⟨b, by simp⟩
      refine List.prefix_of_prefix_length_le hlong hl ?_
      rw [List.length_append, List.length_singleton]
      exact hlt
    exact absurd (ha.subset (by simp)) h
  · exact List.prefix_of_prefix_length_le hl (List.prefix_append a (c :: b)) hle

theorem suffix_append_cons_iff {α : Type*} {c : α} {l a b : List α} (h : c ∉ l) :
    l <:+ a ++ c :: b ↔ l <:+ b := by
  rw [← List.reverse_prefix, List.reverse_append, List.reverse_cons, List.append_assoc,
    List.singleton_append, prefix_append_cons_iff (by simpa using h), List.reverse_prefix]

/-- **Joined texts.** -/
theorem joined_eq_iff (c : Char) (a b a' b' : String) :
    a ++ String.singleton c ++ b = a' ++ String.singleton c ++ b' ↔
      (a = a' ∧ b = b') ∨
      (∃ m, a' = a ++ String.singleton c ++ m ∧ b = m ++ String.singleton c ++ b') ∨
      (∃ m, a = a' ++ String.singleton c ++ m ∧ b' = m ++ String.singleton c ++ b) := by
  have hex : ∀ p : List Char → Prop, (∃ m : String, p m.toList) ↔ ∃ m, p m := fun p =>
    ⟨fun ⟨m, hm⟩ => ⟨_, hm⟩, fun ⟨m, hm⟩ => ⟨String.ofList m, by rwa [String.toList_ofList]⟩⟩
  simp only [← String.toList_inj, String.toList_append, String.toList_singleton, List.append_assoc,
    List.singleton_append]
  rw [append_cons_eq_append_cons_iff,
    hex fun m => a'.toList = a.toList ++ c :: m ∧ b.toList = m ++ c :: b'.toList,
    hex fun m => a.toList = a'.toList ++ c :: m ∧ b'.toList = m ++ c :: b.toList]

theorem trimEndMatches_append {c : Char} {s : String} (h : endsWithChar c s = false) (t : String) :
    trimEndMatches c (s ++ t) = s ++ trimEndMatches c t := by
  have hself : s.toList.rdropWhile (· == c) = s.toList := by
    have htrim := congrArg String.toList ((trimEndMatches_eq_self_iff c s).2 h)
    rwa [trimEndMatches, String.toList_ofList] at htrim
  rw [← String.toList_inj, trimEndMatches, trimEndMatches, String.toList_ofList,
    String.toList_append, String.toList_append, String.toList_ofList]
  induction t.toList using List.reverseRecOn with
  | nil => rw [List.append_nil, hself, List.rdropWhile_nil, List.append_nil]
  | append_singleton l d ih =>
    -- the last character is dropped on both sides or on neither
    rw [← List.append_assoc, List.rdropWhile_concat, List.rdropWhile_concat]
    split
    · exact ih
    · rw [List.append_assoc]

/-- Nothing before a part that is kept is trimmed. -/
theorem trimEndMatches_append_append {c : Char} {m : String} (hm : m ≠ "")
    (h : endsWithChar c m = false) (s t : String) :
    trimEndMatches c (s ++ (m ++ t)) = s ++ (m ++ trimEndMatches c t) := by
  have hends : endsWithChar c (s ++ m) = false := by
    rw [endsWithChar_append_of_ne_empty c s hm, h]
  rw [← String.append_assoc, trimEndMatches_append hends, String.append_assoc]

theorem toList_trimEndMatches_isPrefix (c : Char) (s : String) :
    (trimEndMatches c s).toList <+: s.toList := by
  rw [trimEndMatches, String.toList_ofList]
  exact List.rdropWhile_prefix _ _

/-- What is left of a text begins as the text does. -/
theorem head?_trimEndMatches (c : Char) {s : String} (h : trimEndMatches c s ≠ "") :
    (trimEndMatches c s).toList.head? = s.toList.head? := by
  obtain ⟨t, ht⟩ := toList_trimEndMatches_isPrefix c s
  have hne : (trimEndMatches c s).toList ≠ [] := fun hnil =>
    h (String.toList_inj.1 (by rw [hnil]; rfl))
  rw [← ht, List.head?_append_of_ne_nil _ hne]

/-! ## Splitting at the first character of a kind -/

/-- The part before the first character of the kind. -/
def takeUntil (p : Char → Bool) (s : String) : String :=
  String.ofList (s.toList.takeWhile fun c => !p c)

/-- The part from the first character of the kind on. -/
def dropUntil (p : Char → Bool) (s : String) : String :=
  String.ofList (s.toList.dropWhile fun c => !p c)

/-- No character of the text is of the kind. -/
def Free (p : Char → Bool) (s : String) : Prop := ∀ c ∈ s.toList, p c = false

instance (p : Char → Bool) (s : String) : Decidable (Free p s) :=
  List.decidableBAll (fun c => p c = false) s.toList

section Split

variable {p : Char → Bool} {s : String}

theorem takeUntil_append_dropUntil (p : Char → Bool) (s : String) :
    takeUntil p s ++ dropUntil p s = s := by
  rw [takeUntil, dropUntil, ← String.ofList_append, List.takeWhile_append_dropWhile,
    String.ofList_toList]

theorem free_append {t : String} : Free p (s ++ t) ↔ Free p s ∧ Free p t := by
  simp only [Free, String.toList_append, List.mem_append, or_imp, forall_and]

theorem Free.trimEndMatches (h : Free p s) (c : Char) : Free p (trimEndMatches c s) :=
  fun d hd => h d ((toList_trimEndMatches_isPrefix c s).subset hd)

theorem takeUntil_append_of_free (h : Free p s) (t : String) :
    takeUntil p (s ++ t) = s ++ takeUntil p t := by
  rw [takeUntil, String.toList_append, List.takeWhile_append_of_pos fun c hc => by rw [h c hc]; rfl,
    String.ofList_append, String.ofList_toList, takeUntil]

theorem dropUntil_append_of_free (h : Free p s) (t : String) :
    dropUntil p (s ++ t) = dropUntil p t := by
  rw [dropUntil, String.toList_append, List.dropWhile_append_of_pos fun c hc => by rw [h c hc]; rfl,
    dropUntil]

theorem takeUntil_of_free (h : Free p s) : takeUntil p s = s := by
  have happ := takeUntil_append_of_free h ""
  rwa [String.append_empty, show takeUntil p "" = "" from rfl, String.append_empty] at happ

theorem dropUntil_of_free (h : Free p s) : dropUntil p s = "" := by
  have happ := dropUntil_append_of_free h ""
  rwa [String.append_empty] at happ

theorem head?_append {c : Char} (h : s.toList.head? = some c) (t : String) :
    (s ++ t).toList.head? = some c := by
  rw [String.toList_append, List.head?_append, h, Option.some_or]

theorem takeUntil_of_head {c : Char} (hc : s.toList.head? = some c) (h : p c = true) :
    takeUntil p s = "" := by
  obtain ⟨l, hl⟩ := List.head?_eq_some_iff.1 hc
  rw [takeUntil, hl, List.takeWhile_cons_of_neg (by rw [h]; decide)]

theorem dropUntil_of_head {c : Char} (hc : s.toList.head? = some c) (h : p c = true) :
    dropUntil p s = s := by
  have happ := takeUntil_append_dropUntil p s
  rwa [takeUntil_of_head hc h, String.empty_append] at happ

end Split

end Upstreamer.Foundations
