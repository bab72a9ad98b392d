import Mathlib.Data.List.Basic

/-!
# Textual IP addresses

The two notations that the standard library of the modelled language reads. An IPv4 address is four
decimal numbers joined by dots. An IPv6 address is eight hexadecimal groups joined by colons, where
`::` stands for one or more groups of zeros and the last two groups may be written as an IPv4
address.

The notations are told apart by their characters: the first has digits and dots alone
(`isDigit_of_readIpv4`), the second always has a colon (`colon_mem_of_readIpv6`) and nothing but
hexadecimal digits and the two separators (`isHexDigit_of_readIpv6`).
-/

set_option autoImplicit false

namespace Upstreamer.Foundations

universe u v

def hexValue (c : Char) : Nat :=
  if c.isDigit then c.toNat - '0'.toNat
  else if c.isLower then c.toNat - 'a'.toNat + 10
  else c.toNat - 'A'.toNat + 10

/-- A decimal number below 256 without leading zeros. -/
def readOctet (l : List Char) : Option Nat :=
  let n := Nat.ofDigitChars 10 l 0
  if l ≠ [] ∧ l.all Char.isDigit ∧ (l.head? = some '0' → l.length = 1) ∧ n < 256 then some n
  else none

/-- A group of one to four hexadecimal digits. -/
def readGroup (l : List Char) : Option Nat :=
  if l ≠ [] ∧ l.length ≤ 4 ∧ l.all Char.isHexDigit then
    some (l.foldl (fun n c => 16 * n + hexValue c) 0)
  else none

/-- The 32 bits of an IPv4 address. -/
def readIpv4 (l : List Char) : Option Nat := do
  let octets ← (l.splitOn '.').mapM readOctet
  if octets.length = 4 then some (octets.foldl (fun n octet => 256 * n + octet) 0) else none

/-- The groups of a part without `::`, which may be empty. -/
def readGroups (l : List Char) : Option (List Nat) :=
  if l = [] then some [] else (l.splitOn ':').mapM readGroup

/-- The groups of a part that ends in an IPv4 address, which counts as two. -/
def readMixedGroups (l : List Char) : Option (List Nat) := do
  let groups ← (l.splitOn ':').dropLast.mapM readGroup
  let last ← readIpv4 ((l.splitOn ':').getLastD [])
  some (groups ++ [last / 65536, last % 65536])

/-- The groups of the last part of an address. -/
def readLastGroups (l : List Char) : Option (List Nat) := (readGroups l).or (readMixedGroups l)

/-- The parts before and after the first `::`. -/
def splitGap : List Char → Option (List Char × List Char)
  | ':' :: ':' :: rest => some ([], rest)
  | c :: rest => (splitGap rest).map fun (before, after) => (c :: before, after)
  | [] => none

def joinGroups (groups : List Nat) : Nat := groups.foldl (fun n group => 65536 * n + group) 0

/-- The 128 bits of an IPv6 address. -/
def readIpv6 (l : List Char) : Option Nat :=
  match splitGap l with
  | none => do
      let groups ← readLastGroups l
      if groups.length = 8 then some (joinGroups groups) else none
  | some (before, after) => do
      let first ← readGroups before
      let last ← readLastGroups after
      let missing := 8 - (first.length + last.length)
      if missing = 0 then none
      else some (joinGroups (first ++ List.replicate missing 0 ++ last))

example : readIpv4 "10.0.0.7".toList = some 0x0a000007 := by decide

example : readIpv6 "fd00::ffff:10.0.0.7".toList = some 0xfd000000000000000000ffff0a000007 := by
  decide

/-! ## Parts of a text -/

section Parts

variable {α : Type u} {β : Type v}

/-- A character of a text is the separator or belongs to one of the parts. -/
theorem eq_or_mem_splitOn [DecidableEq α] (sep : α) {c : α} {l : List α} (h : c ∈ l) :
    c = sep ∨ ∃ part ∈ l.splitOn sep, c ∈ part := by
  induction l with
  | nil => cases h
  | cons a l ih =>
    obtain ⟨first, parts, hparts⟩ := List.exists_cons_of_ne_nil (List.splitOn_ne_nil sep l)
    rw [hparts] at ih
    rw [List.splitOn_cons_eq_if_modifyHead, hparts, List.modifyHead_cons]
    rcases List.mem_cons.1 h with rfl | hmem
    · by_cases hc : c = sep
      · exact Or.inl hc
      · refine Or.inr ⟨c :: first, ?_, List.mem_cons_self⟩
        rw [if_neg (by simpa using hc)]
        exact List.mem_cons_self
    · refine (ih hmem).imp_right ?_
      rintro ⟨part, hpart, hc⟩
      split
      · exact ⟨part, List.mem_cons_of_mem [] hpart, hc⟩
      · rcases List.mem_cons.1 hpart with rfl | hpart
        · exact ⟨a :: part, List.mem_cons_self, List.mem_cons_of_mem a hc⟩
        · exact ⟨part, List.mem_cons_of_mem _ hpart, hc⟩

/-- A list that is read is read element by element. -/
theorem isSome_of_mapM {f : α → Option β} {l : List α} {bs : List β} (h : l.mapM f = some bs) :
    ∀ a ∈ l, (f a).isSome := by
  induction l generalizing bs with
  | nil => nofun
  | cons a l ih =>
    rw [List.mapM_cons] at h
    obtain ⟨b, hb, h⟩ := Option.bind_eq_some_iff.1 h
    obtain ⟨bs', hbs', -⟩ := Option.bind_eq_some_iff.1 h
    rw [List.forall_mem_cons, hb]
    exact ⟨rfl, ih hbs'⟩

end Parts

/-! ## The characters of an address -/

section Characters

variable {l : List Char}

theorem isAlpha_iff {c : Char} :
    c.isAlpha = true ↔ ('A' ≤ c ∧ c ≤ 'Z') ∨ ('a' ≤ c ∧ c ≤ 'z') := by
  show (decide ('A' ≤ c ∧ c ≤ 'Z') || (decide ('a' ≤ c) && decide (c ≤ 'z'))) = true ↔ _
  simp only [Bool.or_eq_true, Bool.and_eq_true, decide_eq_true_eq]

theorem not_isDigit_of_isAlpha {c : Char} (h : c.isAlpha = true) : ¬ c.isDigit = true := by
  intro hdigit
  -- the digits come before all letters
  have hle : c ≤ '9' := by
    obtain ⟨-, hle⟩ := Bool.and_eq_true_iff.1 hdigit
    exact of_decide_eq_true hle
  rcases isAlpha_iff.1 h with ⟨hlow, -⟩ | ⟨hlow, -⟩
  · exact absurd (Char.le_trans hlow hle) (by decide)
  · exact absurd (Char.le_trans hlow hle) (by decide)

theorem isHexDigit_iff {c : Char} :
    c.isHexDigit = true ↔ (c.isDigit = true ∨ 'a' ≤ c ∧ c ≤ 'f') ∨ 'A' ≤ c ∧ c ≤ 'F' := by
  show (c.isDigit || (decide ('a' ≤ c) && decide (c ≤ 'f')) ||
    (decide ('A' ≤ c) && decide (c ≤ 'F'))) = true ↔ _
  simp only [Bool.or_eq_true, Bool.and_eq_true, decide_eq_true_eq]

theorem isAlphanum_of_isHexDigit {c : Char} (h : c.isHexDigit = true) : c.isAlphanum = true := by
  show (c.isAlpha || c.isDigit) = true
  rw [Bool.or_eq_true, isAlpha_iff]
  rcases isHexDigit_iff.1 h with (hdigit | ⟨hlow, hhigh⟩) | ⟨hlow, hhigh⟩
  · exact Or.inr hdigit
  · exact Or.inl (Or.inr ⟨hlow, Char.le_trans hhigh (by decide)⟩)
  · exact Or.inl (Or.inl ⟨hlow, Char.le_trans hhigh (by decide)⟩)

theorem isDigit_of_readOctet (h : (readOctet l).isSome) : ∀ c ∈ l, c.isDigit = true := by
  simp only [readOctet] at h
  split at h
  · next hl => exact List.all_eq_true.1 hl.2.1
  · cases h

theorem isHexDigit_of_readGroup (h : (readGroup l).isSome) : ∀ c ∈ l, c.isHexDigit = true := by
  rw [readGroup] at h
  split at h
  · next hl => exact List.all_eq_true.1 hl.2.2
  · cases h

/-- **An IPv4 address is digits and dots.** -/
theorem isDigit_of_readIpv4 {n : Nat} (h : readIpv4 l = some n) :
    ∀ c ∈ l, c = '.' ∨ c.isDigit = true := by
  obtain ⟨octets, hoctets, -⟩ := Option.bind_eq_some_iff.1 h
  intro c hc
  refine (eq_or_mem_splitOn '.' hc).imp_right ?_
  rintro ⟨part, hpart, hc⟩
  exact isDigit_of_readOctet (isSome_of_mapM hoctets part hpart) c hc

theorem ne_nil_of_readIpv4 {n : Nat} (h : readIpv4 l = some n) : l ≠ [] := by
  rintro rfl
  cases h

/-- The characters of a part of an IPv6 address. -/
def isIpv6Char (c : Char) : Bool := c == ':' || c == '.' || c.isHexDigit

theorem isIpv6Char_of_isHexDigit {c : Char} (h : c.isHexDigit = true) : isIpv6Char c = true := by
  rw [isIpv6Char, h, Bool.or_true]

theorem isIpv6Char_of_isDigit {c : Char} (h : c.isDigit = true) : isIpv6Char c = true :=
  isIpv6Char_of_isHexDigit (isHexDigit_iff.2 (Or.inl (Or.inl h)))

/-- What is read part by part has the characters of its parts. -/
theorem isIpv6Char_of_parts (h : ∀ part ∈ l.splitOn ':', ∀ c ∈ part, isIpv6Char c = true) :
    ∀ c ∈ l, isIpv6Char c = true := by
  intro c hc
  rcases eq_or_mem_splitOn ':' hc with rfl | ⟨part, hpart, hc⟩
  · rfl
  · exact h part hpart c hc

theorem isIpv6Char_of_readGroups {groups : List Nat} (h : readGroups l = some groups) :
    ∀ c ∈ l, isIpv6Char c = true := by
  rw [readGroups] at h
  split at h
  · next hnil =>
    subst hnil
    nofun
  · refine isIpv6Char_of_parts fun part hpart c hc => isIpv6Char_of_isHexDigit ?_
    exact isHexDigit_of_readGroup (isSome_of_mapM h part hpart) c hc

theorem isIpv6Char_of_readMixedGroups {groups : List Nat} (h : readMixedGroups l = some groups) :
    ∀ c ∈ l, isIpv6Char c = true := by
  obtain ⟨first, hfirst, h⟩ := Option.bind_eq_some_iff.1 h
  obtain ⟨last, hlast, -⟩ := Option.bind_eq_some_iff.1 h
  refine isIpv6Char_of_parts fun part hpart c hc => ?_
  -- a part is the last one or one of the groups before it
  have hne := List.splitOn_ne_nil ':' l
  rw [← List.dropLast_append_getLast hne, List.mem_append, List.mem_singleton] at hpart
  rcases hpart with hgroup | rfl
  · exact isIpv6Char_of_isHexDigit
      (isHexDigit_of_readGroup (isSome_of_mapM hfirst part hgroup) c hc)
  · rw [List.getLastD_eq_getLast?, List.getLast?_eq_some_getLast hne, Option.getD_some] at hlast
    rcases isDigit_of_readIpv4 hlast c hc with rfl | hdigit
    · rfl
    · exact isIpv6Char_of_isDigit hdigit

theorem isIpv6Char_of_readLastGroups {groups : List Nat} (h : readLastGroups l = some groups) :
    ∀ c ∈ l, isIpv6Char c = true := by
  rcases Option.or_eq_some_iff.1 h with h | ⟨-, h⟩
  · exact isIpv6Char_of_readGroups h
  · exact isIpv6Char_of_readMixedGroups h

theorem splitGap_eq_some {before after : List Char} (h : splitGap l = some (before, after)) :
    l = before ++ ':' :: ':' :: after := by
  fun_induction splitGap generalizing before with
  | case1 rest =>
    obtain ⟨rfl, rfl⟩ := Prod.mk.inj (Option.some.inj h)
    rfl
  | case2 c rest _ ih =>
    obtain ⟨⟨before', after'⟩, hgap, heq⟩ := Option.map_eq_some_iff.1 h
    obtain ⟨rfl, rfl⟩ := Prod.mk.inj heq
    rw [ih hgap, List.cons_append]
  | case3 => cases h

/-- **An IPv6 address is hexadecimal digits, dots and colons.** -/
theorem isIpv6Char_of_readIpv6 {n : Nat} (h : readIpv6 l = some n) :
    ∀ c ∈ l, isIpv6Char c = true := by
  rw [readIpv6] at h
  split at h
  · obtain ⟨groups, hgroups, -⟩ := Option.bind_eq_some_iff.1 h
    exact isIpv6Char_of_readLastGroups hgroups
  · next before after hgap =>
    obtain ⟨first, hfirst, h⟩ := Option.bind_eq_some_iff.1 h
    obtain ⟨last, hlast, -⟩ := Option.bind_eq_some_iff.1 h
    intro c hc
    rw [splitGap_eq_some hgap, List.mem_append, List.mem_cons, List.mem_cons] at hc
    rcases hc with hc | rfl | rfl | hc
    · exact isIpv6Char_of_readGroups hfirst c hc
    · rfl
    · rfl
    · exact isIpv6Char_of_readLastGroups hlast c hc

/-- A part without colons is one group, or two in the other notation. -/
theorem length_of_readLastGroups {groups : List Nat} (hcolon : ':' ∉ l)
    (h : readLastGroups l = some groups) : groups.length ≤ 2 := by
  have hsplit : l.splitOn ':' = [l] := List.splitOn_eq_singleton hcolon
  rcases Option.or_eq_some_iff.1 h with h | ⟨-, h⟩
  · rw [readGroups] at h
    split at h
    · obtain rfl := Option.some.inj h
      exact Nat.zero_le 2
    · rw [hsplit, List.mapM_cons, List.mapM_nil] at h
      obtain ⟨group, -, h⟩ := Option.bind_eq_some_iff.1 h
      obtain rfl := Option.some.inj h
      exact Nat.le_succ 1
  · rw [readMixedGroups, hsplit, List.dropLast_singleton, List.mapM_nil, pure_bind] at h
    obtain ⟨last, -, h⟩ := Option.bind_eq_some_iff.1 h
    obtain rfl := Option.some.inj h
    exact Nat.le_refl 2

/-- **An IPv6 address has a colon.** -/
theorem colon_mem_of_readIpv6 {n : Nat} (h : readIpv6 l = some n) : ':' ∈ l := by
  rw [readIpv6] at h
  split at h
  · -- without a colon there are at most two groups
    by_contra hcolon
    obtain ⟨groups, hgroups, h⟩ := Option.bind_eq_some_iff.1 h
    have hlength := length_of_readLastGroups hcolon hgroups
    rw [if_neg (by omega)] at h
    cases h
  · next before after hgap =>
    rw [splitGap_eq_some hgap]
    exact List.mem_append_right before List.mem_cons_self

/-- **No text is an address of both kinds.** -/
theorem readIpv4_of_readIpv6 {n : Nat} (h : readIpv6 l = some n) : readIpv4 l = none := by
  cases hv4 : readIpv4 l with
  | none => rfl
  | some m =>
    rcases isDigit_of_readIpv4 hv4 ':' (colon_mem_of_readIpv6 h) with hdot | hdigit
    · cases hdot
    · cases hdigit

end Characters

end Upstreamer.Foundations
