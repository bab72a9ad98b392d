import Mathlib.Data.Finmap

/-!
# Finite dictionaries

`Dict α β` is Mathlib's finite map with a constant value type. Its equality is extensional, and no
order of the entries is observable, so it stands for a hash map whose iteration order is
unspecified. This module adds the three updates that a concurrent map offers and Mathlib's does
not: `Dict.retain` keeps the entries a test accepts, `Dict.orInsert` inserts a default only where
the key is absent, and `Dict.modify` changes the value of a key that is present. Each is
characterised by `lookup`, and `Dict.insertAll` and `Dict.orInsertAll` are their iterations over a
list.
-/

set_option autoImplicit false

namespace Upstreamer.Foundations

universe u v

/-- A finite map from `α` to `β`. -/
abbrev Dict (α : Type u) (β : Type v) := Finmap fun _ : α => β

namespace Dict

variable {α : Type u} {β : Type v}

/-- The entries that `p` accepts. -/
def retain (p : α → β → Bool) (m : Dict α β) : Dict α β where
  entries := m.entries.filter fun e => p e.1 e.2
  nodupKeys := Multiset.nodup_keys.1 <|
    Multiset.nodup_of_le (Multiset.map_le_map (Multiset.filter_le _ _))
      (Multiset.nodup_keys.2 m.nodupKeys)

/-- Change every value by `f`. -/
def mapValues (f : β → β) (m : Dict α β) : Dict α β where
  entries := m.entries.map fun e => ⟨e.1, f e.2⟩
  nodupKeys := Multiset.nodup_keys.1 <| by
    rw [Multiset.keys, Multiset.map_map]
    exact Multiset.nodup_keys.2 m.nodupKeys

variable [DecidableEq α]

/-- Insert `b` under `a` when `a` has no entry. -/
def orInsert (a : α) (b : β) (m : Dict α β) : Dict α β :=
  if a ∈ m then m else m.insert a b

/-- Change the value under `a` by `f`; nothing changes when `a` has no entry. -/
def modify (a : α) (f : β → β) (m : Dict α β) : Dict α β :=
  match m.lookup a with
  | none => m
  | some b => m.insert a (f b)

/-- Insert the listed entries in order, a later one replacing an earlier one. -/
def insertAll (entries : List (α × β)) (m : Dict α β) : Dict α β :=
  entries.foldl (fun m e => m.insert e.1 e.2) m

/-- Insert `b` under each listed key that has no entry. -/
def orInsertAll (keys : List α) (b : β) (m : Dict α β) : Dict α β :=
  keys.foldl (fun m a => orInsert a b m) m

theorem lookup_retain (p : α → β → Bool) (m : Dict α β) (a : α) :
    (retain p m).lookup a = (m.lookup a).filter (p a) := by
  ext b
  rw [Finmap.lookup_eq_some_iff, Option.filter_eq_some_iff, Finmap.lookup_eq_some_iff]
  exact Multiset.mem_filter

theorem lookup_mapValues (f : β → β) (m : Dict α β) (a : α) :
    (mapValues f m).lookup a = (m.lookup a).map f := by
  ext b
  rw [Finmap.lookup_eq_some_iff, Option.map_eq_some_iff]
  simp only [Finmap.lookup_eq_some_iff]
  constructor
  · intro h
    obtain ⟨⟨a', b'⟩, he, heq⟩ := Multiset.mem_map.1 h
    cases heq
    exact ⟨b', he, rfl⟩
  · rintro ⟨b', he, rfl⟩
    exact Multiset.mem_map.2 ⟨⟨a, b'⟩, he, rfl⟩

theorem lookup_orInsert_self (a : α) (b : β) (m : Dict α β) :
    (orInsert a b m).lookup a = some ((m.lookup a).getD b) := by
  unfold orInsert
  split
  · next h =>
    obtain ⟨c, hc⟩ := Finmap.mem_iff.1 h
    simp [hc]
  · next h => simp [Finmap.lookup_eq_none.2 h]

theorem lookup_orInsert_ne {a c : α} (h : c ≠ a) (b : β) (m : Dict α β) :
    (orInsert a b m).lookup c = m.lookup c := by
  unfold orInsert
  split
  · rfl
  · exact Finmap.lookup_insert_of_ne m h

@[simp]
theorem mem_orInsert {a c : α} {b : β} {m : Dict α β} :
    c ∈ orInsert a b m ↔ c = a ∨ c ∈ m := by
  unfold orInsert
  split
  · next h =>
    constructor
    · exact Or.inr
    · rintro (rfl | hc)
      · exact h
      · exact hc
  · exact Finmap.mem_insert

theorem lookup_modify_self (a : α) (f : β → β) (m : Dict α β) :
    (modify a f m).lookup a = (m.lookup a).map f := by
  unfold modify
  cases h : m.lookup a with
  | none => simp [h]
  | some b => simp

theorem lookup_modify_ne {a c : α} (h : c ≠ a) (f : β → β) (m : Dict α β) :
    (modify a f m).lookup c = m.lookup c := by
  unfold modify
  split
  · rfl
  · exact Finmap.lookup_insert_of_ne m h

/-- A key without an entry is left without one, and the dictionary is unchanged. -/
theorem modify_of_notMem {a : α} {m : Dict α β} (h : a ∉ m) (f : β → β) : modify a f m = m := by
  unfold modify
  rw [Finmap.lookup_eq_none.2 h]

@[simp]
theorem mem_modify {a c : α} {f : β → β} {m : Dict α β} : c ∈ modify a f m ↔ c ∈ m := by
  rw [← Finmap.lookup_isSome, ← Finmap.lookup_isSome]
  by_cases h : c = a
  · subst h
    rw [lookup_modify_self, Option.isSome_map]
  · rw [lookup_modify_ne h]

/-- An entry after a default was inserted is an old entry or the default. -/
theorem eq_of_lookup_orInsert {a c : α} {b d : β} {m : Dict α β}
    (h : (orInsert a b m).lookup c = some d) : m.lookup c = some d ∨ d = b := by
  by_cases hca : c = a
  · subst hca
    rw [lookup_orInsert_self, Option.some.injEq] at h
    cases hm : m.lookup c with
    | none =>
      rw [hm, Option.getD_none] at h
      exact Or.inr h.symm
    | some e =>
      rw [hm, Option.getD_some] at h
      exact Or.inl (congrArg some h)
  · rw [lookup_orInsert_ne hca] at h
    exact Or.inl h

/-- What holds of all values and of the default holds of all values afterwards. -/
theorem forall_lookup_orInsert {P : β → Prop} {m : Dict α β}
    (h : ∀ c d, m.lookup c = some d → P d) (a : α) {b : β} (hb : P b) :
    ∀ c d, (orInsert a b m).lookup c = some d → P d := by
  intro c d hd
  rcases eq_of_lookup_orInsert hd with hold | rfl
  · exact h c d hold
  · exact hb

/-- What holds of all other values and of the changed one holds of all values afterwards. -/
theorem forall_lookup_modify {P : β → Prop} {m : Dict α β}
    (h : ∀ c d, m.lookup c = some d → P d) {a : α} {f : β → β}
    (hf : ∀ d, m.lookup a = some d → P (f d)) :
    ∀ c d, (modify a f m).lookup c = some d → P d := by
  intro c d hd
  by_cases hca : c = a
  · subst hca
    rw [lookup_modify_self, Option.map_eq_some_iff] at hd
    obtain ⟨e, he, rfl⟩ := hd
    exact hf e he
  · rw [lookup_modify_ne hca] at hd
    exact h c d hd

theorem mem_orInsertAll {keys : List α} {b : β} {m : Dict α β} {c : α} :
    c ∈ orInsertAll keys b m ↔ c ∈ keys ∨ c ∈ m := by
  induction keys generalizing m with
  | nil => simp [orInsertAll]
  | cons a rest ih =>
    show c ∈ orInsertAll rest b (orInsert a b m) ↔ _
    rw [ih, mem_orInsert, List.mem_cons]
    tauto

/-- Every entry of a dictionary filled with defaults is an old entry or the default. -/
theorem eq_of_lookup_orInsertAll {keys : List α} {b : β} {m : Dict α β} {c : α} {d : β}
    (h : (orInsertAll keys b m).lookup c = some d) : m.lookup c = some d ∨ d = b := by
  induction keys generalizing m with
  | nil => exact Or.inl h
  | cons a rest ih =>
    have h' : (orInsertAll rest b (orInsert a b m)).lookup c = some d := h
    rcases ih h' with hd | hd
    · exact eq_of_lookup_orInsert hd
    · exact Or.inr hd

theorem lookup_insertAll_of_notMem {entries : List (α × β)} {m : Dict α β} {c : α}
    (h : c ∉ entries.map Prod.fst) : (insertAll entries m).lookup c = m.lookup c := by
  induction entries generalizing m with
  | nil => rfl
  | cons e rest ih =>
    rw [List.map_cons, List.mem_cons, not_or] at h
    show (insertAll rest (m.insert e.1 e.2)).lookup c = _
    rw [ih h.2, Finmap.lookup_insert_of_ne m h.1]

/-- A listed key holds one of the values listed for it. -/
theorem lookup_insertAll_of_mem {entries : List (α × β)} {m : Dict α β} {c : α}
    (h : c ∈ entries.map Prod.fst) :
    ∃ b, (c, b) ∈ entries ∧ (insertAll entries m).lookup c = some b := by
  induction entries generalizing m with
  | nil => simp at h
  | cons e rest ih =>
    show ∃ b, (c, b) ∈ e :: rest ∧ (insertAll rest (m.insert e.1 e.2)).lookup c = some b
    -- a key that is listed again further on is overwritten there
    by_cases hrest : c ∈ rest.map Prod.fst
    · obtain ⟨b, hb, hl⟩ := ih (m := m.insert e.1 e.2) hrest
      exact ⟨b, List.mem_cons_of_mem _ hb, hl⟩
    · have hce : c = e.1 := by
        rw [List.map_cons, List.mem_cons] at h
        exact h.resolve_right hrest
      subst hce
      refine ⟨e.2, List.mem_cons_self, ?_⟩
      rw [lookup_insertAll_of_notMem hrest, Finmap.lookup_insert]

end Dict

end Upstreamer.Foundations
