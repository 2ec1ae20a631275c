import Mathlib.Data.List.Count
import Mathlib.Data.List.Pairwise

/-! # Covers

How often the members of a list contain a point. Cutting a member in two, joining two that touch or
leaving out an empty one changes no count. Pieces that contain every point at most once are
disjoint.
-/

open List

namespace Cover

variable {α ι : Type*} {has : α → ι → Bool} {l : List α} {a b : α} {x : ι}

def cover (has : α → ι → Bool) (l : List α) (x : ι) : ℕ := l.countP (has · x)

@[simp] lemma cover_nil : cover has [] x = 0 := rfl

@[simp] lemma cover_cons : cover has (a :: l) x = (has a x).toNat + cover has l x := by
  rw [cover, countP_cons, cover, Nat.add_comm]
  cases has a x <;> rfl

@[simp] lemma cover_append {l' : List α} :
    cover has (l ++ l') x = cover has l x + cover has l' x := countP_append

lemma cover_pos_iff : 0 < cover has l x ↔ ∃ a ∈ l, has a x = true := countP_pos_iff

lemma cover_eq_zero_iff : cover has l x = 0 ↔ ∀ a ∈ l, has a x = false := by
  simp [cover, countP_eq_zero]

lemma pairwise_of_cover_le_one (h : ∀ x, cover has l x ≤ 1) :
    l.Pairwise fun a b => ∀ x, ¬ (has a x = true ∧ has b x = true) := by
  induction l with
  | nil => exact List.Pairwise.nil
  | cons a l ih =>
    refine pairwise_cons.2 ⟨fun b hb x hab => ?_, ih fun x => ?_⟩
    · have hpos : 0 < cover has l x := cover_pos_iff.2 ⟨b, hb, hab.2⟩
      have := h x
      rw [cover_cons, hab.1, Bool.toNat_true] at this
      omega
    · have := h x
      rw [cover_cons] at this
      omega

lemma cover_le_one_of_pairwise
    (h : l.Pairwise fun a b => ∀ x, ¬ (has a x = true ∧ has b x = true)) (x : ι) :
    cover has l x ≤ 1 := by
  induction l with
  | nil => simp
  | cons a l ih =>
    obtain ⟨hhead, htail⟩ := pairwise_cons.1 h
    rw [cover_cons]
    cases ha : has a x with
    | false => simpa using ih htail
    | true =>
      have : cover has l x = 0 := cover_eq_zero_iff.2 fun b hb => by
        have := hhead b hb x
        simpa [ha] using this
      simp [this]

end Cover
