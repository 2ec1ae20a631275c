import Mathlib.Data.List.Nodup

/-! # Chains

Nodes linked by a successor map. A chain that comes to an end visits no node twice, is
fixed by its start, and depends on the links of its own nodes only.
-/

open List Function

namespace Chain

variable {α : Type*} {next next' : α → Option α} {o : Option α} {x y : α} {xs ys : List α}

/-- Following the links from `o` visits `xs` and ends. -/
def Path (next : α → Option α) : Option α → List α → Prop
  | o, [] => o = none
  | o, x :: xs => o = some x ∧ Path next (next x) xs

lemma Path.unique (h : Path next o xs) (h' : Path next o ys) : xs = ys := by
  induction xs generalizing o ys with
  | nil =>
    cases ys with
    | nil => rfl
    | cons y ys => exact absurd (h.symm.trans h'.1) (by simp)
  | cons x xs ih =>
    cases ys with
    | nil => exact absurd (h'.symm.trans h.1) (by simp)
    | cons y ys =>
      obtain rfl : x = y := Option.some.inj (h.1.symm.trans h'.1)
      rw [ih h.2 h'.2]

lemma Path.congr (h : Path next o xs) (hnext : ∀ x ∈ xs, next' x = next x) : Path next' o xs := by
  induction xs generalizing o with
  | nil => exact h
  | cons x xs ih =>
    refine ⟨h.1, ?_⟩
    rw [hnext x mem_cons_self]
    exact ih h.2 fun y hy => hnext y (.tail _ hy)

lemma Path.drop (h : Path next o (xs ++ x :: ys)) : Path next (some x) (x :: ys) := by
  induction xs generalizing o with
  | nil => exact ⟨rfl, h.2⟩
  | cons y xs ih => exact ih h.2

lemma Path.nodup (h : Path next o xs) : xs.Nodup := by
  induction xs generalizing o with
  | nil => exact nodup_nil
  | cons x xs ih =>
    refine nodup_cons.mpr ⟨fun hx => ?_, ih h.2⟩
    -- a node met again would be followed by the whole chain once more
    obtain ⟨pre, post, rfl⟩ := append_of_mem hx
    have hsame : x :: post = x :: (pre ++ x :: post) := (h.2.drop).unique ⟨rfl, h.2⟩
    have hlen := congrArg List.length hsame
    simp at hlen
    omega

lemma Path.snoc [DecidableEq α] (h : Path next o (xs ++ [x])) (hy : y ∉ xs ++ [x]) :
    Path (update (update next y none) x (some y)) o (xs ++ [x] ++ [y]) := by
  have hx : x ∉ xs := by
    have := h.nodup
    simp [nodup_append] at this
    exact fun hmem => this.2 x hmem rfl
  have hne : y ≠ x := fun heq => hy (by simp [heq])
  induction xs generalizing o with
  | nil =>
    refine ⟨h.1, ?_, ?_⟩
    · rw [update_self]
    · rw [update_of_ne hne, update_self]
      rfl
  | cons z xs ih =>
    simp only [cons_append, mem_cons, not_or] at hy hx
    refine ⟨h.1, ?_⟩
    rw [update_of_ne (Ne.symm hx.1), update_of_ne (Ne.symm hy.1)]
    exact ih h.2 hy.2 hx.2

end Chain
