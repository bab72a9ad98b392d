import Mathlib.Data.List.Sort
import Mathlib.Data.String.Basic
import Upstreamer.Foundations.IpText

/-!
# JSON texts

JSON values made of truth values, natural numbers, strings and objects, the compact text that a
serializer writes for one, and a reader of such texts. Reading gives back what was written, whatever
characters the strings are made of (`read_render`), so no two values have the same text.

An object is a list of members. The maps that objects are usually made from keep their entries in
the order of the keys; `sortedEntries` is what a list of insertions leaves in such a map. When no
key is inserted twice, the order of the insertions does not show (`sortedEntries_eq_of_perm`).
-/

set_option autoImplicit false

namespace Upstreamer.Foundations

universe u v

inductive Json where
  | bool (b : Bool)
  | number (n : Nat)
  | string (s : String)
  | object (members : List (String × Json))

namespace Json

/-! ## Writing -/

/-- The characters that a letter stands for behind a backslash. -/
def letters : List (Char × Char) :=
  [('"', '"'), ('\\', '\\'), (Char.ofNat 8, 'b'), (Char.ofNat 9, 't'), (Char.ofNat 10, 'n'),
    (Char.ofNat 12, 'f'), (Char.ofNat 13, 'r')]

/-- A character within a string; the other control characters stand by their code. -/
def escape (c : Char) : List Char :=
  match letters.lookup c with
  | some letter => ['\\', letter]
  | none =>
      if c.toNat < 32 then
        ['\\', 'u', '0', '0', Nat.digitChar (c.toNat / 16), Nat.digitChar (c.toNat % 16)]
      else [c]

def quote (s : String) : List Char := '"' :: (s.toList.flatMap escape ++ ['"'])

mutual

def write : Json → List Char
  | bool b => (if b then "true" else "false").toList
  | number n => Nat.toDigits 10 n
  | string s => quote s
  | object members => '{' :: writeMembers true members

/-- The members, each but the first after a comma, and the closing brace. -/
def writeMembers : Bool → List (String × Json) → List Char
  | _, [] => ['}']
  | first, (key, value) :: members =>
      (if first then [] else [',']) ++
        (quote key ++ (':' :: (write value ++ writeMembers false members)))

end

def render (value : Json) : String := String.ofList value.write

/-! ## Reading -/

/-- The character that a letter stands for behind a backslash. -/
def unescape (letter : Char) : Option Char :=
  (letters.find? fun p => p.2 = letter).map Prod.fst

/-- The character of a code in four hexadecimal digits. -/
def readCode (digits : List Char) : Option Char :=
  let code := digits.foldl (fun n c => 16 * n + hexValue c) 0
  if digits.all Char.isHexDigit ∧ code.isValidChar then some (Char.ofNat code) else none

/-- The characters up to the closing quote, and the text after it. -/
def readChars : List Char → Option (List Char × List Char)
  | [] => none
  | c :: text =>
      if c = '"' then some ([], text)
      else if c = '\\' then
        match text with
        | [] => none
        | 'u' :: a :: b :: c :: d :: text => do
            let c ← readCode [a, b, c, d]
            let (cs, text) ← readChars text
            some (c :: cs, text)
        | letter :: text => do
            let c ← unescape letter
            let (cs, text) ← readChars text
            some (c :: cs, text)
      else if c.toNat < 32 then none
      else do
        let (cs, text) ← readChars text
        some (c :: cs, text)

/-- The text after the character. -/
def expect (c : Char) : List Char → Option (List Char)
  | [] => none
  | d :: text => if d = c then some text else none

/-- The number that the text begins with, without leading zeros. -/
def readNumber (text : List Char) : Option (Nat × List Char) :=
  let n := Nat.ofDigitChars 10 (text.takeWhile Char.isDigit) 0
  if text.takeWhile Char.isDigit = Nat.toDigits 10 n then some (n, text.dropWhile Char.isDigit)
  else none

mutual

/-- The value that the text begins with, and the text after it. -/
def readValue : Nat → List Char → Option (Json × List Char)
  | 0, _ => none
  | fuel + 1, text =>
      match text with
      | '{' :: text => (readMembers fuel true text).map fun p => (object p.1, p.2)
      | '"' :: text => (readChars text).map fun p => (string (String.ofList p.1), p.2)
      | 't' :: 'r' :: 'u' :: 'e' :: text => some (bool true, text)
      | 'f' :: 'a' :: 'l' :: 's' :: 'e' :: text => some (bool false, text)
      | text => (readNumber text).map fun p => (number p.1, p.2)

/-- The members up to the closing brace, and the text after it. -/
def readMembers : Nat → Bool → List Char → Option (List (String × Json) × List Char)
  | 0, _, _ => none
  | fuel + 1, first, text =>
      match expect '}' text with
      | some text => some ([], text)
      | none => do
          let text ← if first then some text else expect ',' text
          let text ← expect '"' text
          let (key, text) ← readChars text
          let text ← expect ':' text
          let (value, text) ← readValue fuel text
          let (members, text) ← readMembers fuel false text
          some ((String.ofList key, value) :: members, text)

end

/-- The value of a text, when nothing is left after it. -/
def read (text : String) : Option Json :=
  match readValue text.length text.toList with
  | some (value, []) => some value
  | _ => none

/-! ## Reading what was written -/

section Strings

theorem mem_letters {c letter : Char} (h : letters.lookup c = some letter) :
    (c, letter) ∈ letters := by
  obtain ⟨before, after, hsplit, -⟩ := List.lookup_eq_some_iff.1 h
  rw [hsplit]
  exact List.mem_append_right _ List.mem_cons_self

theorem unescape_letter : ∀ p ∈ letters, unescape p.2 = some p.1 ∧ p.2 ≠ 'u' := by
  decide

theorem readCode_control : ∀ n < 32, readCode
    ['0', '0', Nat.digitChar (n / 16), Nat.digitChar (n % 16)] = some (Char.ofNat n) := by
  decide

theorem readChars_close (text : List Char) : readChars ('"' :: text) = some ([], text) := by
  rw [readChars.eq_def]
  rfl

theorem readChars_letter {letter c : Char} (hne : letter ≠ 'u') (h : unescape letter = some c)
    (text : List Char) :
    readChars ('\\' :: letter :: text) = (readChars text).map fun p => (c :: p.1, p.2) := by
  rw [readChars.eq_def]
  simp only [Char.reduceEq, if_false, if_true]
  split
  · next heq => cases heq
  · next heq => exact absurd (List.cons.inj heq).1 hne
  · next heq =>
    obtain ⟨rfl, rfl⟩ := List.cons.inj heq
    rw [h]
    cases readChars text <;> rfl

theorem readChars_code {a b c d ch : Char} (h : readCode [a, b, c, d] = some ch)
    (text : List Char) : readChars ('\\' :: 'u' :: a :: b :: c :: d :: text) =
      (readChars text).map fun p => (ch :: p.1, p.2) := by
  rw [readChars.eq_def]
  simp only [Char.reduceEq, if_false, if_true, h]
  cases readChars text <;> rfl

theorem readChars_plain {c : Char} (hquote : c ≠ '"') (hslash : c ≠ '\\') (h : ¬ c.toNat < 32)
    (text : List Char) : readChars (c :: text) = (readChars text).map fun p => (c :: p.1, p.2) := by
  rw [readChars.eq_def]
  simp only [if_neg hquote, if_neg hslash, if_neg h]
  cases readChars text <;> rfl

/-- The character comes back, and the rest is read as it would be without it. -/
theorem readChars_escape (c : Char) (text : List Char) :
    readChars (escape c ++ text) = (readChars text).map fun p => (c :: p.1, p.2) := by
  rw [escape]
  cases hletter : letters.lookup c with
  | some letter =>
    obtain ⟨hback, hne⟩ := unescape_letter _ (mem_letters hletter)
    exact readChars_letter hne hback text
  | none =>
    dsimp only
    split
    · next hcontrol =>
      have hcode := readCode_control c.toNat hcontrol
      rw [Char.ofNat_toNat] at hcode
      exact readChars_code hcode text
    · next hplain =>
      refine readChars_plain ?_ ?_ hplain text
      · rintro rfl
        exact absurd hletter (by decide)
      · rintro rfl
        exact absurd hletter (by decide)

/-- A quoted text is read up to its closing quote. -/
theorem readChars_quoted (cs text : List Char) :
    readChars (cs.flatMap escape ++ '"' :: text) = some (cs, text) := by
  induction cs with
  | nil => exact readChars_close text
  | cons c cs ih =>
    rw [List.flatMap_cons, List.append_assoc, readChars_escape, ih]
    rfl

end Strings

section Values

/-- The text does not begin with a digit, so that a number before it ends there. -/
def NoDigit (text : List Char) : Prop := ∀ c ∈ text.head?, c.isDigit = false

theorem takeWhile_eq_nil {text : List Char} (h : NoDigit text) :
    text.takeWhile Char.isDigit = [] := by
  cases text with
  | nil => rfl
  | cons c text => rw [List.takeWhile_cons, h c rfl, if_neg Bool.false_ne_true]

theorem dropWhile_eq_self {text : List Char} (h : NoDigit text) :
    text.dropWhile Char.isDigit = text := by
  cases text with
  | nil => rfl
  | cons c text => rw [List.dropWhile_cons, h c rfl, if_neg Bool.false_ne_true]

theorem readNumber_toDigits (n : Nat) {text : List Char} (h : NoDigit text) :
    readNumber (Nat.toDigits 10 n ++ text) = some (n, text) := by
  have hdigits : ∀ c ∈ Nat.toDigits 10 n, c.isDigit = true :=
    fun c hc => Nat.isDigit_of_mem_toDigits (by decide) (by decide) hc
  have htake : (Nat.toDigits 10 n ++ text).takeWhile Char.isDigit = Nat.toDigits 10 n := by
    rw [List.takeWhile_append_of_pos hdigits, takeWhile_eq_nil h, List.append_nil]
  have hdrop : (Nat.toDigits 10 n ++ text).dropWhile Char.isDigit = text := by
    rw [List.dropWhile_append_of_pos hdigits, dropWhile_eq_self h]
  simp only [readNumber, htake, hdrop, Nat.ofDigitChars_ten_toDigits, if_true]

/-- Numbers are told from the other values by their first character. -/
theorem readValue_digits (fuel n : Nat) {text : List Char} (h : NoDigit text) :
    readValue (fuel + 1) (Nat.toDigits 10 n ++ text) = some (number n, text) := by
  have hread := readNumber_toDigits n h
  obtain ⟨d, ds, hds⟩ := List.exists_cons_of_ne_nil (Nat.toDigits_ne_nil (n := n) (b := 10))
  have hdigit : d.isDigit = true :=
    Nat.isDigit_of_mem_toDigits (by decide) (by decide) (hds ▸ List.mem_cons_self)
  rw [hds, List.cons_append] at hread ⊢
  rw [readValue.eq_def]
  dsimp only
  split
  · next heq => exact absurd hdigit (by rw [(List.cons.inj heq).1]; decide)
  · next heq => exact absurd hdigit (by rw [(List.cons.inj heq).1]; decide)
  · next heq => exact absurd hdigit (by rw [(List.cons.inj heq).1]; decide)
  · next heq => exact absurd hdigit (by rw [(List.cons.inj heq).1]; decide)
  · rw [hread]
    rfl

theorem noDigit_cons {c : Char} (h : c.isDigit = false) (text : List Char) :
    NoDigit (c :: text) := by
  rintro d ⟨⟩
  exact h

theorem noDigit_writeMembers (members : List (String × Json)) (text : List Char) :
    NoDigit (writeMembers false members ++ text) := by
  cases members with
  | nil => exact noDigit_cons (by decide) _
  | cons member members => exact noDigit_cons (by decide) _

mutual

/-- **A written value is read back**, with a number told from what follows. -/
theorem readValue_write (value : Json) (fuel : Nat) (text : List Char)
    (hfuel : value.write.length ≤ fuel) (htext : NoDigit text) :
    readValue fuel (value.write ++ text) = some (value, text) := by
  cases value with
  | bool b =>
    obtain ⟨fuel, rfl⟩ := Nat.exists_eq_add_of_le' ((by cases b <;> decide : 1 ≤ _).trans hfuel)
    cases b <;> rfl
  | number n =>
    rw [write] at hfuel ⊢
    obtain ⟨fuel, rfl⟩ := Nat.exists_eq_add_of_le' (Nat.length_toDigits_pos.trans_le hfuel)
    exact readValue_digits fuel n htext
  | string s =>
    rw [write, quote, List.length_cons] at hfuel
    obtain ⟨fuel, rfl⟩ := Nat.exists_eq_add_of_le' ((Nat.le_add_left 1 _).trans hfuel)
    have hread := readChars_quoted s.toList text
    rw [write, quote, List.cons_append, List.append_assoc, List.singleton_append, readValue.eq_def]
    simp only [hread, Option.map_some, String.ofList_toList]
  | object members =>
    rw [write, List.length_cons] at hfuel
    obtain ⟨fuel, rfl⟩ := Nat.exists_eq_add_of_le' ((Nat.le_add_left 1 _).trans hfuel)
    have hread := readMembers_write members true fuel text (by omega)
    rw [write, List.cons_append, readValue.eq_def]
    simp only [hread, Option.map_some]

theorem readMembers_write (members : List (String × Json)) (first : Bool) (fuel : Nat)
    (text : List Char) (hfuel : (writeMembers first members).length ≤ fuel) :
    readMembers fuel first (writeMembers first members ++ text) = some (members, text) := by
  cases members with
  | nil =>
    rw [writeMembers, List.length_singleton] at hfuel
    obtain ⟨fuel, rfl⟩ := Nat.exists_eq_add_of_le' hfuel
    rfl
  | cons member members =>
    obtain ⟨key, value⟩ := member
    rw [writeMembers] at hfuel ⊢
    simp only [quote, List.length_append, List.length_cons, List.length_nil] at hfuel
    obtain ⟨fuel, rfl⟩ := Nat.exists_eq_add_of_le' ((by omega : 1 ≤ _).trans hfuel)
    have hvalue := readValue_write value fuel (writeMembers false members ++ text) (by omega)
      (noDigit_writeMembers members text)
    have hrest := readMembers_write members false fuel text (by omega)
    have hkey := readChars_quoted key.toList
      (':' :: (value.write ++ (writeMembers false members ++ text)))
    cases first with
    | true =>
      simp only [quote, if_true, List.nil_append, List.cons_append, List.append_assoc]
      rw [readMembers.eq_def]
      simp only [expect, Char.reduceEq, if_true, if_false, Option.bind_eq_bind, Option.bind_some,
        hkey, hvalue, hrest, String.ofList_toList]
    | false =>
      simp only [quote, Bool.false_eq_true, if_false, List.cons_append, List.nil_append,
        List.append_assoc]
      rw [readMembers.eq_def]
      simp only [expect, Char.reduceEq, Bool.false_eq_true, if_false, if_true,
        Option.bind_eq_bind, Option.bind_some, hkey, hvalue, hrest, String.ofList_toList]

end

/-- **Reading gives back what was written.** -/
theorem read_render (value : Json) : read value.render = some value := by
  have hread := readValue_write value value.write.length [] le_rfl fun _ hc => nomatch hc
  rw [List.append_nil] at hread
  rw [read, render, String.length_ofList, String.toList_ofList, hread]

end Values

end Json

/-! ## Maps in the order of their keys -/

section Entries

variable {κ : Type u} {α : Type v} [LinearOrder κ]

/-- Insert into a list in the order of the keys; the entry of the key is replaced. -/
def insertEntry (key : κ) (a : α) : List (κ × α) → List (κ × α)
  | [] => [(key, a)]
  | (key', a') :: entries =>
      if key < key' then (key, a) :: (key', a') :: entries
      else if key = key' then (key, a) :: entries
      else (key', a') :: insertEntry key a entries

/-- What the insertions leave, made one after the other. -/
def sortedEntries (entries : List (κ × α)) : List (κ × α) :=
  entries.foldl (fun sorted entry => insertEntry entry.1 entry.2 sorted) []

/-- The keys increase. -/
def Increasing (entries : List (κ × α)) : Prop := entries.Pairwise fun e e' => e.1 < e'.1

variable {key : κ} {a : α} {entries entries' : List (κ × α)}

theorem mem_of_mem_insertEntry {e : κ × α} (h : e ∈ insertEntry key a entries) :
    e = (key, a) ∨ e ∈ entries := by
  induction entries with
  | nil => exact Or.inl (List.mem_singleton.1 h)
  | cons e' entries ih =>
    rw [insertEntry] at h
    split at h
    · exact List.mem_cons.1 h
    · split at h
      · exact (List.mem_cons.1 h).imp_right (List.mem_cons_of_mem e')
      · rcases List.mem_cons.1 h with rfl | h
        · exact Or.inr List.mem_cons_self
        · exact (ih h).imp_right (List.mem_cons_of_mem e')

theorem Increasing.insertEntry (h : Increasing entries) (key : κ) (a : α) :
    Increasing (insertEntry key a entries) := by
  induction entries with
  | nil => exact List.pairwise_singleton _ _
  | cons e entries ih =>
    obtain ⟨hfirst, hrest⟩ := List.pairwise_cons.1 h
    rw [Foundations.insertEntry]
    split
    · next hlt =>
      refine List.pairwise_cons.2 ⟨fun e' he' => ?_, h⟩
      rcases List.mem_cons.1 he' with rfl | he'
      · exact hlt
      · exact hlt.trans (hfirst e' he')
    · next hge =>
      split
      · next heq => exact List.pairwise_cons.2 ⟨heq ▸ hfirst, hrest⟩
      · next hne =>
        refine List.pairwise_cons.2 ⟨fun e' he' => ?_, ih hrest⟩
        rcases mem_of_mem_insertEntry he' with rfl | he'
        · exact lt_of_le_of_ne (not_lt.1 hge) (Ne.symm hne)
        · exact hfirst e' he'

/-- A new key leaves the other entries as they are. -/
theorem insertEntry_perm (h : ∀ e ∈ entries, e.1 ≠ key) :
    (insertEntry key a entries).Perm ((key, a) :: entries) := by
  induction entries with
  | nil => exact List.Perm.refl _
  | cons e entries ih =>
    obtain ⟨hne, hrest⟩ := List.forall_mem_cons.1 h
    rw [insertEntry]
    split
    · exact List.Perm.refl _
    · rw [if_neg (Ne.symm hne)]
      exact ((ih hrest).cons e).trans (List.Perm.swap _ _ _)

theorem foldl_insertEntry_perm (hnodup : (entries.map Prod.fst).Nodup) (entries' : List (κ × α))
    (hnew : ∀ e ∈ entries, ∀ e' ∈ entries', e'.1 ≠ e.1) :
    (entries.foldl (fun sorted entry => insertEntry entry.1 entry.2 sorted) entries').Perm
      (entries ++ entries') := by
  induction entries generalizing entries' with
  | nil => exact List.Perm.refl _
  | cons e entries ih =>
    rw [List.map_cons, List.nodup_cons] at hnodup
    obtain ⟨hfirst, hrest⟩ := List.forall_mem_cons.1 hnew
    have hinsert := insertEntry_perm (a := e.2) hfirst
    have hlater := ih hnodup.2 _ fun e₁ h₁ e₂ h₂ => by
      rcases mem_of_mem_insertEntry h₂ with rfl | h₂
      · exact fun heq => hnodup.1 (heq ▸ List.mem_map_of_mem h₁)
      · exact hrest e₁ h₁ e₂ h₂
    exact hlater.trans ((hinsert.append_left entries).trans List.perm_middle)

/-- Inserting distinct keys keeps all the entries. -/
theorem sortedEntries_perm (hnodup : (entries.map Prod.fst).Nodup) :
    (sortedEntries entries).Perm entries := by
  have h := foldl_insertEntry_perm hnodup [] fun _ _ _ he' => nomatch he'
  rwa [List.append_nil] at h

theorem increasing_sortedEntries (entries : List (κ × α)) : Increasing (sortedEntries entries) := by
  suffices h : ∀ entries', Increasing entries' → Increasing
      (entries.foldl (fun sorted entry => insertEntry entry.1 entry.2 sorted) entries') from
    h [] List.Pairwise.nil
  induction entries with
  | nil => exact fun _ h => h
  | cons e entries ih => exact fun entries' h => ih _ (h.insertEntry e.1 e.2)

/-- **The order of the insertions does not show.** -/
theorem sortedEntries_eq_of_perm (hnodup : (entries.map Prod.fst).Nodup)
    (h : entries.Perm entries') : sortedEntries entries = sortedEntries entries' := by
  have hnodup' : (entries'.map Prod.fst).Nodup := (h.map Prod.fst).nodup_iff.1 hnodup
  have hperm := (sortedEntries_perm hnodup).trans (h.trans (sortedEntries_perm hnodup').symm)
  exact hperm.eq_of_pairwise (fun _ _ _ _ hlt hgt => absurd hlt (not_lt.2 hgt.le))
    (increasing_sortedEntries entries) (increasing_sortedEntries entries')

theorem insertEntry_map {β : Type v} (f : α → β) (key : κ) (a : α) (entries : List (κ × α)) :
    insertEntry key (f a) (entries.map fun e => (e.1, f e.2)) =
      (insertEntry key a entries).map fun e => (e.1, f e.2) := by
  induction entries with
  | nil => rfl
  | cons e entries ih =>
    rw [List.map_cons, insertEntry, insertEntry, ih]
    split
    · rfl
    · split <;> rfl

/-- The values are carried along. -/
theorem sortedEntries_map {β : Type v} (f : α → β) (entries : List (κ × α)) :
    sortedEntries (entries.map fun e => (e.1, f e.2)) =
      (sortedEntries entries).map fun e => (e.1, f e.2) := by
  suffices h : ∀ sorted : List (κ × α),
      (entries.map fun e => (e.1, f e.2)).foldl (fun sorted e => insertEntry e.1 e.2 sorted)
        (sorted.map fun e => (e.1, f e.2)) =
      (entries.foldl (fun sorted e => insertEntry e.1 e.2 sorted) sorted).map
        fun e => (e.1, f e.2) from h []
  induction entries with
  | nil => exact fun _ => rfl
  | cons e entries ih =>
    intro sorted
    rw [List.map_cons, List.foldl_cons, List.foldl_cons, insertEntry_map]
    exact ih _

theorem lookup_eq_some_iff_mem (hnodup : (entries.map Prod.fst).Nodup) :
    entries.lookup key = some a ↔ (key, a) ∈ entries := by
  induction entries with
  | nil => exact iff_of_false (fun h => nomatch h) List.not_mem_nil
  | cons e entries ih =>
    obtain ⟨key', a'⟩ := e
    rw [List.map_cons, List.nodup_cons] at hnodup
    rw [List.lookup_cons, List.mem_cons, Prod.mk.injEq]
    by_cases hkey : key = key'
    · subst hkey
      have hnone : (key, a) ∉ entries := fun hmem =>
        hnodup.1 (List.mem_map.2 ⟨(key, a), hmem, rfl⟩)
      simp [hnone, eq_comm]
    · simp only [beq_false_of_ne hkey, hkey, false_and, false_or]
      exact ih hnodup.2

/-- A map finds what was inserted under the key. -/
theorem lookup_sortedEntries (hnodup : (entries.map Prod.fst).Nodup) (key : κ) :
    (sortedEntries entries).lookup key = entries.lookup key := by
  have hperm := sortedEntries_perm hnodup
  have hnodup' := (hperm.map Prod.fst).nodup_iff.2 hnodup
  ext a
  rw [lookup_eq_some_iff_mem hnodup, lookup_eq_some_iff_mem hnodup', hperm.mem_iff]

end Entries

end Upstreamer.Foundations
