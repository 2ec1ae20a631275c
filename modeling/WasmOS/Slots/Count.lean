import Mathlib.Algebra.BigOperators.Fin

/-! # Counting slots

The number of slots with a property moves with the one that is replaced.
-/

namespace Slots

open Finset Function

lemma card_update {ι α : Type*} [Fintype ι] [DecidableEq ι] {f : ι → α} {i : ι} (p : α → Bool)
    (s : α) : #{j | p (update f i s j)} + (p (f i)).toNat = #{j | p (f j)} + (p s).toNat := by
  have hrest : ∑ j ∈ univ.erase i, (if p (update f i s j) then 1 else 0) =
      ∑ j ∈ univ.erase i, (if p (f j) then 1 else 0) := by
    refine sum_congr rfl fun j hj => ?_
    rw [update_of_ne (ne_of_mem_erase hj)]
  simp only [card_filter, ← add_sum_erase univ _ (mem_univ i), hrest, update_self]
  cases p s <;> cases p (f i) <;> simp <;> omega

end Slots
