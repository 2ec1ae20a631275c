import Mathlib.Algebra.Order.Ring.Nat
import Mathlib.Data.List.Flatten
import Mathlib.Algebra.BigOperators.Group.List.Basic

/-! # Next-fit packing

Items are put into bins of one capacity in order; one that does not fit opens the next bin. The two
loops pack without keeping the bins, by counting them and by collecting one of them.
-/

open List

namespace Packing

variable {α : Type*} (size : α → ℕ) (cap : ℕ)

/-- The bins, when the first is filled to `off` before the items. -/
def bins : (off : ℕ) → List α → List (List α)
  | _, [] => [[]]
  | off, a :: as =>
    if cap < off + size a then [] :: (bins (size a) as).modifyHead (a :: ·)
    else (bins (off + size a) as).modifyHead (a :: ·)

def countLoop : (n off : ℕ) → List α → ℕ
  | n, _, [] => n + 1
  | n, off, a :: as =>
    if cap < off + size a then countLoop (n + 1) (size a) as else countLoop n (off + size a) as

def pickLoop (index : ℕ) : (cur off : ℕ) → List α → List α
  | _, _, [] => []
  | cur, off, a :: as =>
    if cap < off + size a then
      if index < cur + 1 then []
      else if cur + 1 = index then a :: pickLoop index (cur + 1) (size a) as
      else pickLoop index (cur + 1) (size a) as
    else if cur = index then a :: pickLoop index cur (off + size a) as
    else pickLoop index cur (off + size a) as

variable {size cap} {off n index cur : ℕ} {as : List α} {a : α}

lemma bins_ne_nil : bins size cap off as ≠ [] := by
  induction as generalizing off with
  | nil => exact cons_ne_nil _ _
  | cons a as ih =>
    unfold bins
    split
    · exact cons_ne_nil _ _
    · exact fun h => ih (modifyHead_eq_nil_iff.mp h)

lemma exists_bins_eq_cons (size : α → ℕ) (cap off : ℕ) (as : List α) :
    ∃ b bs, bins size cap off as = b :: bs := exists_cons_of_ne_nil bins_ne_nil

lemma flatten_bins : (bins size cap off as).flatten = as := by
  induction as generalizing off with
  | nil => rfl
  | cons a as ih =>
    unfold bins
    split
    · obtain ⟨b, bs, h⟩ := exists_bins_eq_cons size cap (size a) as
      have := @ih (size a)
      simp_all
    obtain ⟨b, bs, h⟩ := exists_bins_eq_cons size cap (off + size a) as
    have := @ih (off + size a)
    simp_all

lemma countLoop_eq : countLoop size cap n off as = n + (bins size cap off as).length := by
  induction as generalizing n off with
  | nil => rfl
  | cons a as ih =>
    unfold countLoop bins
    split
    · rw [ih, length_cons, length_modifyHead]
      omega
    · rw [ih, length_modifyHead]

lemma pickLoop_eq (h : cur ≤ index) :
    pickLoop size cap index cur off as = ((bins size cap off as)[index - cur]?).getD [] := by
  induction as generalizing cur off with
  | nil =>
    unfold pickLoop bins
    cases index - cur <;> rfl
  | cons a as ih =>
    unfold pickLoop bins
    split
    · obtain ⟨b, bs, hb⟩ := exists_bins_eq_cons size cap (size a) as
      rcases Nat.lt_trichotomy index (cur + 1) with hlt | heq | hgt
      · rw [if_pos hlt, show index - cur = 0 by omega]
        rfl
      · subst heq
        rw [if_neg (lt_irrefl _), if_pos rfl, ih (le_rfl), hb]
        simp
      obtain ⟨k, hk⟩ := Nat.exists_eq_add_of_lt hgt
      rw [if_neg (by omega), if_neg (by omega), ih (by omega), hb,
        show index - cur = k + 1 + 1 by omega, show index - (cur + 1) = k + 1 by omega]
      simp
    · obtain ⟨b, bs, hb⟩ := exists_bins_eq_cons size cap (off + size a) as
      rcases eq_or_lt_of_le h with heq | hlt
      · subst heq
        rw [if_pos rfl, ih (le_rfl), hb]
        simp
      obtain ⟨k, hk⟩ := Nat.exists_eq_add_of_lt hlt
      rw [if_neg (by omega), ih (by omega), hb, show index - cur = k + 1 by omega]
      simp

lemma bins_fit (hsize : ∀ a ∈ as, size a ≤ cap) (hoff : off ≤ cap) {b : List α}
    {bs : List (List α)} (h : bins size cap off as = b :: bs) :
    off + (b.map size).sum ≤ cap ∧ ∀ c ∈ bs, c ≠ [] ∧ (c.map size).sum ≤ cap := by
  induction as generalizing off b bs with
  | nil =>
    cases h
    simpa using hoff
  | cons a as ih =>
    have ha := hsize a (.head _)
    have has : ∀ c ∈ as, size c ≤ cap := fun c hc => hsize c (.tail _ hc)
    unfold bins at h
    split at h
    · obtain ⟨b', bs', hb⟩ := exists_bins_eq_cons size cap (size a) as
      obtain ⟨hfit, hrest⟩ := ih has ha hb
      rw [hb, modifyHead_cons] at h
      cases h
      refine ⟨by simpa using hoff, fun c hc => ?_⟩
      rcases mem_cons.mp hc with rfl | hc
      · exact ⟨cons_ne_nil _ _, by simpa using hfit⟩
      · exact hrest c hc
    next hle =>
      obtain ⟨b', bs', hb⟩ := exists_bins_eq_cons size cap (off + size a) as
      obtain ⟨hfit, hrest⟩ := ih has (by omega) hb
      rw [hb, modifyHead_cons] at h
      cases h
      refine ⟨?_, hrest⟩
      simpa [add_assoc] using hfit

end Packing
