import Mathlib.Data.List.Basic

/-!
# Lists built in blocks

A loop that appends a block to its list in each round builds the blocks one after another
(`forIn_append`). Inserting a list after each block needs the lengths of the blocks alone, and it
gives the list of the extended blocks (`insertAfter_flatMap`).
-/

set_option autoImplicit false

namespace Upstreamer.Foundations

universe u v

variable {α : Type u} {β : Type v}

/-- **A loop that appends.** -/
theorem forIn_append {f : α → List β → Id (ForInStep (List β))} {g : α → List β}
    (hf : ∀ a l, f a l = pure (.yield (l ++ g a))) (as : List α) (l : List β) :
    (forIn as l f).run = l ++ as.flatMap g := by
  induction as generalizing l with
  | nil => rw [List.flatMap_nil, List.append_nil, List.forIn_nil, Id.run_pure]
  | cons a as ih =>
    rw [List.forIn_cons, hf, pure_bind]
    show (forIn as (l ++ g a) f).run = _
    rw [ih, List.flatMap_cons, List.append_assoc]

/-- A loop that appends one element in each round. -/
theorem forIn_push {f : α → List β → Id (ForInStep (List β))} {g : α → β}
    (hf : ∀ a l, f a l = pure (.yield (l ++ [g a]))) (as : List α) (l : List β) :
    (forIn as l f).run = l ++ as.map g := by
  rw [List.map_eq_flatMap]
  exact forIn_append hf as l

/-- Insert a list after each block of a list, the blocks given by their lengths. What follows the
last block is kept. -/
def insertAfter : List Nat → List (List α) → List α → List α
  | n :: ns, new :: news, l => l.take n ++ (new ++ insertAfter ns news (l.drop n))
  | _, _, l => l

/-- **Inserting after blocks extends each block.** -/
theorem insertAfter_flatMap (block new : β → List α) (bs : List β) :
    insertAfter (bs.map fun b => (block b).length) (bs.map new) (bs.flatMap block) =
      bs.flatMap fun b => block b ++ new b := by
  induction bs with
  | nil => rfl
  | cons b bs ih =>
    rw [List.map_cons, List.map_cons, List.flatMap_cons, List.flatMap_cons, insertAfter,
      List.take_left, List.drop_left, ih, List.append_assoc]

end Upstreamer.Foundations
