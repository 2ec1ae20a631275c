import Mathlib.Data.Finset.Card
import Mathlib.Data.List.Pairwise

/-! # Forests in a flat list of slots

A forest without pointers: each slot carries its own key and the key of its parent, and dead slots
are reused. A recursive cascade removes a subtree, walking the whole list at every node. It ends,
leaves no live slot whose parent is gone, and touches nothing but the liveness of slots whose
lineage passes through its start.
-/

open List Function

namespace Forest

/-- How the slots of a flat list are linked into a forest. -/
structure Links (α ι : Type*) where
  live : α → Bool
  key : α → ι
  parent : α → ι
  /-- The parent key of a slot that hangs from no other slot. -/
  root : ι
  retire : α → α
  live_retire : ∀ a, live (retire a) = false

variable {α ι : Type*}

/-- Reuse the first dead slot, or grow the list at its head where that is possible. -/
def place (live : α → Bool) (grow : Bool) (new : α) (s : List α) : Option (List α) :=
  match s.findIdx? (fun a => !live a) with
  | some i => some (s.set i new)
  | none => if grow then some (new :: s) else none

variable {a : α} {R : α → α → Prop}

section Place

variable {live : α → Bool} {grow : Bool} {new : α} {s t : List α}

lemma mem_of_mem_place (h : place live grow new s = some t) (ha : a ∈ t) : a = new ∨ a ∈ s := by
  unfold place at h
  split at h
  · cases h
    rcases mem_or_eq_of_mem_set ha with h | h
    · exact .inr h
    · exact .inl h
  split at h
  · cases h
    exact mem_cons.1 ha
  · cases h

lemma mem_place_of_live (h : place live grow new s = some t) (ha : a ∈ s)
    (hl : live a = true) : a ∈ t := by
  unfold place at h
  split at h
  next i hi =>
    cases h
    obtain ⟨hlt, hdead, -⟩ := findIdx?_eq_some_iff_getElem.1 hi
    obtain ⟨j, hj, rfl⟩ := mem_iff_getElem.1 ha
    -- the slot written over is dead, so it is not the one looked for
    have hne : i ≠ j := by
      rintro rfl
      simp [hl] at hdead
    rw [mem_iff_getElem]
    exact ⟨j, by simpa using hj, by simp [hne]⟩
  next =>
    split at h
    · cases h
      exact .tail _ ha
    · cases h

lemma pairwise_place (hR : ∀ a b, R a b → R b a)
    (h : place live grow new s = some t) (hs : s.Pairwise R) (hnew : ∀ a ∈ s, R new a) :
    t.Pairwise R := by
  unfold place at h
  split at h
  next i hi =>
    cases h
    rw [pairwise_iff_getElem] at hs ⊢
    intro j k hj hk hjk
    simp only [length_set] at hj hk
    rw [getElem_set, getElem_set]
    split
    · rw [if_neg (by omega)]
      exact hnew _ (getElem_mem hk)
    split
    · exact hR _ _ (hnew _ (getElem_mem hj))
    · exact hs j k hj hk hjk
  next =>
    split at h
    · cases h
      exact pairwise_cons.2 ⟨hnew, hs⟩
    · cases h

end Place

def updateFirst (p : α → Bool) (f : α → α) : List α → List α
  | [] => []
  | a :: s => if p a then f a :: s else a :: updateFirst p f s

section Update

variable {p : α → Bool} {f : α → α} {s : List α}

lemma mem_of_mem_updateFirst (h : a ∈ updateFirst p f s) :
    a ∈ s ∨ ∃ b ∈ s, p b = true ∧ a = f b := by
  induction s with
  | nil => cases h
  | cons b s ih =>
    unfold updateFirst at h
    split at h
    next hb =>
      rcases mem_cons.1 h with rfl | h
      · exact .inr ⟨b, .head _, hb, rfl⟩
      · exact .inl (.tail _ h)
    next =>
      rcases mem_cons.1 h with rfl | h
      · exact Or.inl (.head _)
      rcases ih h with h | ⟨c, hc, hpc, rfl⟩
      · exact .inl (.tail _ h)
      · exact .inr ⟨c, .tail _ hc, hpc, rfl⟩

lemma mem_updateFirst (h : a ∈ s) :
    a ∈ updateFirst p f s ∨ (p a = true ∧ f a ∈ updateFirst p f s) := by
  induction s with
  | nil => cases h
  | cons b s ih =>
    unfold updateFirst
    split
    next hb =>
      rcases mem_cons.1 h with rfl | h
      · exact .inr ⟨hb, .head _⟩
      · exact .inl (.tail _ h)
    next hb =>
      rcases mem_cons.1 h with rfl | h
      · exact Or.inl (.head _)
      rcases ih h with h | ⟨hp, h⟩
      · exact .inl (.tail _ h)
      · exact .inr ⟨hp, .tail _ h⟩

lemma mem_updateFirst_of_find (h : s.find? p = some a) : f a ∈ updateFirst p f s := by
  induction s with
  | nil => cases h
  | cons b s ih =>
    unfold updateFirst
    rw [find?_cons] at h
    split at h
    next hb =>
      cases h
      rw [if_pos hb]
      exact .head _
    next hb =>
      rw [if_neg (by simp [hb])]
      exact .tail _ (ih h)

lemma not_of_mem_updateFirst (hs : s.Pairwise fun a b => p a = true → p b = false)
    (hf : ∀ a, p (f a) = false) (h : a ∈ updateFirst p f s) : p a = false := by
  induction s with
  | nil => cases h
  | cons b s ih =>
    rw [pairwise_cons] at hs
    unfold updateFirst at h
    split at h
    next hb =>
      rcases mem_cons.1 h with rfl | h
      · exact hf b
      · exact hs.1 a h hb
    next hb =>
      rcases mem_cons.1 h with rfl | h
      · simpa using hb
      · exact ih hs.2 h

lemma pairwise_updateFirst (hl : ∀ a b, p a = true → R a b → R (f a) b)
    (hr : ∀ a b, p b = true → R a b → R a (f b)) (hs : s.Pairwise R) :
    (updateFirst p f s).Pairwise R := by
  induction s with
  | nil => exact hs
  | cons b s ih =>
    rw [pairwise_cons] at hs
    unfold updateFirst
    split
    next hb => exact pairwise_cons.2 ⟨fun a ha => hl b a hb (hs.1 a ha), hs.2⟩
    next =>
      refine pairwise_cons.2 ⟨fun a ha => ?_, ih hs.2⟩
      rcases mem_of_mem_updateFirst ha with ha | ⟨c, hc, hpc, rfl⟩
      · exact hs.1 a ha
      · exact hr b c hpc (hs.1 c hc)

lemma updateFirst_updateFirst {g : α → α} (hp : ∀ a, p a = true → p (f a) = true) :
    updateFirst p g (updateFirst p f s) = updateFirst p (fun a => g (f a)) s := by
  induction s with
  | nil => rfl
  | cons b s ih => by_cases hb : p b = true <;> simp [updateFirst, hb, hp b, ih]

lemma find?_updateFirst (hp : ∀ a, p a = true → p (f a) = true) :
    (updateFirst p f s).find? p = (s.find? p).map f := by
  induction s with
  | nil => rfl
  | cons b s ih => by_cases hb : p b = true <;> simp [updateFirst, hb, hp b, ih]

variable {β : Type*} {g : α → β}

lemma map_updateFirst (hg : ∀ a, g (f a) = g a) : (updateFirst p f s).map g = s.map g := by
  induction s with
  | nil => rfl
  | cons b s ih =>
    unfold updateFirst
    split
    · simp [hg]
    · simp [ih]

lemma map_updateFirst_const {a b : α} (hs : s.find? p = some a)
    (hg : g b = g a) : (updateFirst p (fun _ => b) s).map g = s.map g := by
  induction s with
  | nil => cases hs
  | cons c s ih =>
    unfold updateFirst
    rw [find?_cons] at hs
    split at hs
    next hc =>
      cases hs
      simp [hc, hg]
    next hc => simp [hc, ih hs]

lemma any_updateFirst_const {a b : α} (hs : s.find? p = some a) (hg : g b = g a) (q : β → Bool) :
    (updateFirst p (fun _ => b) s).any (q ∘ g) = s.any (q ∘ g) := by
  rw [← any_map, map_updateFirst_const hs hg, any_map]

lemma updateFirst_const_map {q : β → Bool} {b : α} (hq : ∀ a, q (g a) = p a) :
    (updateFirst p (fun _ => b) s).map g = updateFirst q (fun _ => g b) (s.map g) := by
  induction s with
  | nil => rfl
  | cons c s ih =>
    simp only [updateFirst, map_cons, hq]
    split
    · rfl
    · rw [map_cons, ih]

lemma updateFirst_const_self (hs : s.find? p = some a) : updateFirst p (fun _ => a) s = s := by
  have := map_updateFirst_const (g := id) hs rfl
  simpa using this

end Update

variable (L : Links α ι)

structure Thins (s t : List α) : Prop where
  length_eq : t.length = s.length
  kept : ∀ (i : ℕ) (a : α), t[i]? = some a → L.live a = true → s[i]? = some a

@[mk_iff]
structure Linked (s : List α) : Prop where
  unique : s.Pairwise fun a b => L.live a = true → L.live b = true → L.key a ≠ L.key b
  keyed : ∀ a ∈ s, L.live a = true → L.key a ≠ L.root
  closed : ∀ a ∈ s, L.live a = true → L.parent a ≠ L.root →
    ∃ p ∈ s, L.live p = true ∧ L.key p = L.parent a

/-- Children rank above their parents, so no slot is its own ancestor. -/
def Ranked (f : ι → ℕ) (s : List α) : Prop :=
  ∀ a ∈ s, L.live a = true → L.parent a ≠ L.root → f (L.parent a) < f (L.key a)

def above (f : ι → ℕ) (k : ι) (s : List α) : ℕ :=
  s.countP fun a => L.live a && decide (f k < f (L.key a))

/-- Calls `act` on the key of every slot that satisfies `p` when the walk reaches it. -/
def sweep (p : α → Bool) (act : ι → List α → Option (List α)) : List ℕ → List α → Option (List α)
  | [], s => some s
  | i :: is, s =>
    match s[i]? with
    | none => sweep p act is s
    | some a =>
      if p a then (act (L.key a) s).bind (sweep p act is) else sweep p act is s

variable {L} {f : ι → ℕ} {p : α → Bool}

namespace Thins

variable {s t u : List α}

lemma refl (s : List α) : Thins L s s := ⟨rfl, fun _ _ h _ => h⟩

lemma trans (h : Thins L s t) (h' : Thins L t u) : Thins L s u where
  length_eq := h'.length_eq.trans h.length_eq
  kept i a ha hl := h.kept i a (h'.kept i a ha hl) hl

lemma mem (h : Thins L s t) (ha : a ∈ t) (hl : L.live a = true) : a ∈ s := by
  obtain ⟨i, hi⟩ := mem_iff_getElem?.1 ha
  exact mem_iff_getElem?.2 ⟨i, h.kept i a hi hl⟩

lemma pairwise (h : Thins L s t)
    (hs : s.Pairwise fun a b => L.live a = true → L.live b = true → R a b) :
    t.Pairwise fun a b => L.live a = true → L.live b = true → R a b := by
  rw [pairwise_iff_getElem] at hs ⊢
  intro i j hi hj hij hla hlb
  have ha := h.kept i _ (getElem?_eq_getElem hi) hla
  have hb := h.kept j _ (getElem?_eq_getElem hj) hlb
  obtain ⟨hi', hai⟩ := List.getElem?_eq_some_iff.1 ha
  obtain ⟨hj', hbj⟩ := List.getElem?_eq_some_iff.1 hb
  have := hs i j hi' hj' hij
  rw [hai, hbj] at this
  exact this hla hlb

lemma ranked (h : Thins L s t) (hs : Ranked L f s) : Ranked L f t :=
  fun a ha hl => hs a (h.mem ha hl) hl

lemma countP_le (hp : ∀ a, p a = true → L.live a = true) :
    ∀ {s t : List α}, Thins L s t → t.countP p ≤ s.countP p
  | [], t, h => by
    have : t = [] := length_eq_zero_iff.1 h.length_eq
    simp [this]
  | a :: s, [], h => by simp
  | a :: s, b :: t, h => by
    have ih := countP_le hp
      ⟨by simpa using h.length_eq, fun i c hc hl => by
        simpa using h.kept (i + 1) c (by simpa using hc) hl⟩
    rw [countP_cons, countP_cons]
    by_cases hb : p b = true
    · have : a = b := by simpa using h.kept 0 b rfl (hp b hb)
      subst this
      simpa using ih
    · rw [if_neg hb]
      omega

lemma above_le {k : ι} (h : Thins L s t) : above L f k t ≤ above L f k s :=
  h.countP_le fun a ha => by
    simp only [Bool.and_eq_true] at ha
    exact ha.1

end Thins

variable {s : List α}

lemma countP_lt_countP {p q : α → Bool} (h : ∀ b, p b = true → q b = true)
    (ha : a ∈ s) (hp : p a = false) (hq : q a = true) : s.countP p < s.countP q := by
  obtain ⟨s₁, s₂, rfl⟩ := append_of_mem ha
  have h₁ : s₁.countP p ≤ s₁.countP q := countP_mono_left fun b _ => h b
  have h₂ : s₂.countP p ≤ s₂.countP q := countP_mono_left fun b _ => h b
  simp only [countP_append, countP_cons, hp, hq, if_true, Bool.false_eq_true, if_false]
  omega

lemma above_lt_above {k : ι} (ha : a ∈ s) (hl : L.live a = true) (hk : f k < f (L.key a)) :
    above L f (L.key a) s < above L f k s := by
  refine countP_lt_countP (fun b hb => ?_) ha (by simp) (by simp [hl, hk])
  simp only [Bool.and_eq_true, decide_eq_true_eq] at hb ⊢
  exact ⟨hb.1, hk.trans hb.2⟩

lemma above_lt_length_succ (f : ι → ℕ) (k : ι) (s : List α) :
    above L f k s < s.length + 1 := Nat.lt_succ_of_le countP_le_length

variable {act : ι → List α → Option (List α)} {I : List α → Prop}

section

variable (hlive : ∀ a, p a = true → L.live a = true)
  (hact : ∀ s a, I s → a ∈ s → p a = true → ∃ t, act (L.key a) s = some t ∧ Thins L s t ∧ I t ∧
    ∀ b ∈ t, L.live b = true → L.key b ≠ L.key a)
include hlive hact

/-- The rule for a walk: an invariant every visit keeps holds at its end, and no slot
the walk passed satisfies the walk's condition any more. -/
lemma sweep_spec :
    ∀ (is : List ℕ) (s : List α), I s → ∃ t, sweep L p act is s = some t ∧ Thins L s t ∧ I t ∧
        ∀ i ∈ is, ∀ a, t[i]? = some a → p a = false
  | [], s, hs => ⟨s, rfl, Thins.refl s, hs, by simp⟩
  | i :: is, s, hs => by
    -- what the visit of place `i` leaves there stays so for the rest of the walk
    have key : ∀ s', Thins L s s' → I s' → (∀ a, s'[i]? = some a → p a = false) →
        ∃ t, sweep L p act is s' = some t ∧ Thins L s t ∧ I t ∧
          ∀ j ∈ i :: is, ∀ a, t[j]? = some a → p a = false := by
      intro s' hss' hs' hi
      obtain ⟨t, ht, hthin, hIt, hdone⟩ := sweep_spec is s' hs'
      refine ⟨t, ht, hss'.trans hthin, hIt, fun j hj a ha => ?_⟩
      rcases mem_cons.1 hj with rfl | hj
      · by_contra hpa
        rw [Bool.not_eq_false] at hpa
        rw [hi a (hthin.kept j a ha (hlive a hpa))] at hpa
        cases hpa
      · exact hdone j hj a ha
    cases ha : s[i]? with
    | none =>
      simp only [sweep, ha]
      exact key s (Thins.refl s) hs fun a h => by rw [ha] at h; cases h
    | some a =>
      simp only [sweep, ha]
      split
      next hpa =>
        obtain ⟨s', hs', hthin, hI, hgone⟩ := hact s a hs (mem_iff_getElem?.2 ⟨i, ha⟩) hpa
        rw [hs', Option.bind_some]
        refine key s' hthin hI fun b hb => ?_
        by_contra hpb
        rw [Bool.not_eq_false] at hpb
        have hbl := hlive b hpb
        have hab := hthin.kept i b hb hbl
        cases ha.symm.trans hab
        exact hgone a (mem_iff_getElem?.2 ⟨i, hb⟩) hbl rfl
      next hpa =>
        refine key s (Thins.refl s) hs fun b hb => ?_
        cases ha.symm.trans hb
        simpa using hpa

lemma sweep_all_spec (hs : I s) :
    ∃ t, sweep L p act (List.range s.length) s = some t ∧ Thins L s t ∧ I t ∧
      ∀ a ∈ t, p a = false := by
  obtain ⟨t, ht, hthin, hI, hdone⟩ := sweep_spec hlive hact (List.range s.length) s hs
  refine ⟨t, ht, hthin, hI, fun a ha => ?_⟩
  obtain ⟨i, hi, hia⟩ := mem_iff_getElem.1 ha
  exact hdone i (mem_range.2 (hthin.length_eq ▸ hi)) a (List.getElem?_eq_some_iff.2 ⟨hi, hia⟩)

end

lemma thins_updateFirst {f : α → α} (hf : ∀ a, L.live (f a) = false) :
    ∀ s : List α, Thins L s (updateFirst p f s)
  | [] => Thins.refl _
  | a :: s => by
    have ih := thins_updateFirst hf s
    unfold updateFirst
    split
    · refine ⟨rfl, fun i b hb hl => ?_⟩
      cases i with
      | zero =>
        have : b = f a := by simpa using hb.symm
        rw [this, hf] at hl
        cases hl
      | succ i => simpa using hb
    · refine ⟨by simp [ih.length_eq], fun i b hb hl => ?_⟩
      cases i with
      | zero => simpa using hb
      | succ i => simpa using ih.kept i b (by simpa using hb) hl

lemma Linked.eq_of_key (h : Linked L s) {a b : α} (ha : a ∈ s) (hb : b ∈ s)
    (hla : L.live a = true) (hlb : L.live b = true) (hk : L.key a = L.key b) : a = b := by
  have : Std.Symm fun a b => L.live a = true → L.live b = true → L.key a ≠ L.key b :=
    ⟨fun _ _ h hb ha => (h ha hb).symm⟩
  by_contra hne
  exact h.unique.forall ha hb hne hla hlb hk

section

variable {grow : Bool} {new : α} {s t : List α} (h : Linked L s)
  (ht : place L.live grow new s = some t) (hfresh : ∀ a ∈ s, L.live a = true → L.key a ≠ L.key new)
  (hparent : L.parent new ≠ L.root → ∃ p ∈ s, L.live p = true ∧ L.key p = L.parent new)
include h ht hfresh hparent

lemma Linked.place (hroot : L.key new ≠ L.root) : Linked L t := by
  constructor
  · exact pairwise_place (fun a b h hb ha => (h ha hb).symm) ht h.unique
      fun a ha _ hl => (hfresh a ha hl).symm
  · intro a ha hl
    rcases mem_of_mem_place ht ha with rfl | ha
    · exact hroot
    · exact h.keyed a ha hl
  intro a ha hl hp
  have hlift : (∃ p ∈ s, L.live p = true ∧ L.key p = L.parent a) →
      ∃ p ∈ t, L.live p = true ∧ L.key p = L.parent a := fun ⟨p, hpm, hpl, hpk⟩ =>
    ⟨p, mem_place_of_live ht hpm hpl, hpl, hpk⟩
  rcases mem_of_mem_place ht ha with rfl | ha
  · exact hlift (hparent hp)
  · exact hlift (h.closed a ha hl hp)

lemma exists_ranked_place [DecidableEq ι] (hf : Ranked L f s) : ∃ g, Ranked L g t := by
  refine ⟨update f (L.key new) (f (L.parent new) + 1), fun a ha hl hp => ?_⟩
  have hold : ∀ c, (∃ p ∈ s, L.live p = true ∧ L.key p = c) → c ≠ L.key new := by
    rintro c ⟨p, hpm, hpl, rfl⟩
    exact hfresh p hpm hpl
  rcases mem_of_mem_place ht ha with rfl | ha
  · rw [update_of_ne (hold _ (hparent hp)), update_self]
    omega
  · rw [update_of_ne (hold _ (h.closed a ha hl hp)), update_of_ne (hfresh a ha hl)]
    exact hf a ha hl hp

end

section

variable {g : α → α} (hl : ∀ a, L.live (g a) = L.live a)
  (hk : ∀ a, L.key (g a) = L.key a) (hp : ∀ a, L.parent (g a) = L.parent a)
include hl hk hp

lemma linked_map_iff : Linked L (s.map g) ↔ Linked L s := by
  simp only [linked_iff, pairwise_map, mem_map, exists_exists_and_eq_and, forall_exists_index,
    and_imp, forall_apply_eq_imp_iff₂, hl, hk, hp]

lemma ranked_map_iff : Ranked L f (s.map g) ↔ Ranked L f s := by
  simp [Ranked, hl, hk, hp]

end

def retireAll (L : Links α ι) (p : α → Bool) (s : List α) : List α :=
  s.map fun a => if L.live a && p a then L.retire a else a

section RetireAll

variable {p : α → Bool} {s : List α}

lemma mem_retireAll_iff (hl : L.live a = true) : a ∈ retireAll L p s ↔ a ∈ s ∧ p a = false := by
  unfold retireAll
  rw [mem_map]
  constructor
  · rintro ⟨b, hb, rfl⟩
    by_cases h : (L.live b && p b) = true
    · rw [if_pos h, L.live_retire] at hl
      cases hl
    · rw [if_neg h] at hl ⊢
      exact ⟨hb, by simpa [hl] using h⟩
  · rintro ⟨ha, hp⟩
    exact ⟨a, ha, by simp [hp]⟩

lemma thins_retireAll (p : α → Bool) (s : List α) : Thins L s (retireAll L p s) := by
  refine ⟨by simp [retireAll], fun i a ha hl => ?_⟩
  simp only [retireAll, getElem?_map, Option.map_eq_some_iff] at ha
  obtain ⟨b, hb, rfl⟩ := ha
  split at hl
  · rw [L.live_retire] at hl
    cases hl
  · rename_i h
    rwa [if_neg h]

lemma Linked.retireAll (h : Linked L s)
    (hp : ∀ a ∈ s, ∀ q ∈ s, L.live a = true → L.live q = true → L.key q = L.parent a →
      p q = true → p a = true) : Linked L (retireAll L p s) := by
  have ht := thins_retireAll (L := L) p s
  constructor
  · exact ht.pairwise h.unique
  · exact fun a ha hl => h.keyed a (ht.mem ha hl) hl
  intro a ha hl hroot
  obtain ⟨hmem, hpa⟩ := (mem_retireAll_iff hl).1 ha
  obtain ⟨q, hq, hql, hqk⟩ := h.closed a hmem hl hroot
  refine ⟨q, (mem_retireAll_iff hql).2 ⟨hq, ?_⟩, hql, hqk⟩
  by_contra hpq
  rw [hp a hmem q hq hl hql hqk (by simpa using hpq)] at hpa
  cases hpa

end RetireAll

section Cascade

variable [DecidableEq ι]

def Links.named (L : Links α ι) (k : ι) (a : α) : Bool := L.live a && decide (L.key a = k)

def Links.hangs (L : Links α ι) (k : ι) (a : α) : Bool := L.live a && decide (L.parent a = k)

lemma Links.named_iff {k : ι} : L.named k a = true ↔ L.live a = true ∧ L.key a = k := by
  simp [Links.named]

lemma Links.hangs_iff {k : ι} : L.hangs k a = true ↔ L.live a = true ∧ L.parent a = k := by
  simp [Links.hangs]

variable (L) in
/-- Retire a slot after everything that hangs from it. `none` is a cascade deeper than the bound. -/
def revokeTree : ℕ → ι → List α → Option (List α)
  | 0, _, _ => none
  | depth + 1, k, s =>
    (sweep L (L.hangs k) (revokeTree depth) (List.range s.length) s).map
      (updateFirst (L.named k) L.retire)

variable {k : ι} {s : List α}

lemma Linked.key_ne_of_mem_retired (h : Linked L s)
    (ha : a ∈ updateFirst (L.named k) L.retire s) (hl : L.live a = true) : L.key a ≠ k := by
  have hone : s.Pairwise fun a b => L.named k a = true → L.named k b = false :=
    h.unique.imp fun {a b} hab hka => by
      rw [Bool.eq_false_iff]
      intro hkb
      rw [Links.named_iff] at hka hkb
      exact hab hka.1 hkb.1 (hka.2.trans hkb.2.symm)
  have hgone := not_of_mem_updateFirst hone (fun b => by simp [Links.named, L.live_retire]) ha
  rintro rfl
  simp [Links.named, hl] at hgone

lemma Linked.retire (h : Linked L s) (hk : ∀ a ∈ s, L.live a = true → L.parent a ≠ k) :
    Linked L (updateFirst (L.named k) L.retire s) := by
  have ht := thins_updateFirst (p := L.named k) L.live_retire s
  constructor
  · exact ht.pairwise h.unique
  · exact fun a ha hl => h.keyed a (ht.mem ha hl) hl
  intro a ha hl hp
  obtain ⟨p, hpm, hpl, hpk⟩ := h.closed a (ht.mem ha hl) hl hp
  have hne : L.key p ≠ k := hpk ▸ hk a (ht.mem ha hl) hl
  rcases mem_updateFirst (p := L.named k) (f := L.retire) hpm with hp' | ⟨hp', -⟩
  · exact ⟨p, hp', hpl, hpk⟩
  · exact absurd (Links.named_iff.1 hp').2 hne

/-- The cascade ends within a depth bounded by the live slots above its start, keeps
the forest linked, and leaves no live slot with the key. -/
lemma revokeTree_spec : ∀ (depth : ℕ) (k : ι) (s : List α), k ≠ L.root →
    Linked L s → Ranked L f s → above L f k s < depth →
    ∃ t, revokeTree L depth k s = some t ∧ Thins L s t ∧ Linked L t ∧
      ∀ a ∈ t, L.live a = true → L.key a ≠ k
  | 0, _, _, _, _, _, h => absurd h (Nat.not_lt_zero _)
  | depth + 1, k, s, hk, hs, hf, hd => by
    -- every child found by the walk lies above `k`, and fewer slots lie above the child
    have hvisit : ∀ s a, (Linked L s ∧ Ranked L f s ∧ above L f k s < depth + 1) → a ∈ s →
        L.hangs k a = true → ∃ t, revokeTree L depth (L.key a) s = some t ∧ Thins L s t ∧
          (Linked L t ∧ Ranked L f t ∧ above L f k t < depth + 1) ∧
          ∀ b ∈ t, L.live b = true → L.key b ≠ L.key a := by
      rintro s a ⟨hlinked, hranked, habove⟩ ha hp
      rw [Links.hangs_iff] at hp
      have hlt : f k < f (L.key a) := by
        have := hranked a ha hp.1 (hp.2 ▸ hk)
        rwa [hp.2] at this
      have hdepth := above_lt_above ha hp.1 hlt
      obtain ⟨t, ht, hthin, hlt', hgone⟩ :=
        revokeTree_spec depth (L.key a) s (hlinked.keyed a ha hp.1) hlinked hranked (by omega)
      exact ⟨t, ht, hthin, ⟨hlt', hthin.ranked hranked, hthin.above_le.trans_lt habove⟩, hgone⟩
    obtain ⟨t, ht, hthin, ⟨hlinked, -, -⟩, hdone⟩ :=
      sweep_all_spec (fun a ha => (Links.hangs_iff.1 ha).1) hvisit ⟨hs, hf, hd⟩
    have hchild : ∀ a ∈ t, L.live a = true → L.parent a ≠ k := fun a ha hl hp => by
      have := hdone a ha
      rw [Bool.eq_false_iff] at this
      exact this (Links.hangs_iff.2 ⟨hl, hp⟩)
    refine ⟨updateFirst (L.named k) L.retire t, ?_, ?_, ?_, ?_⟩
    · rw [revokeTree, ht, Option.map_some]
    · exact hthin.trans (thins_updateFirst L.live_retire t)
    · exact hlinked.retire hchild
    · exact fun a ha hl => hlinked.key_ne_of_mem_retired ha hl

end Cascade

section Lineage

variable {α ι : Type*} {L : Links α ι} {s t : List α} {k j : ι}

variable (L) in
/-- Going from key to parent leads from `j` to `k`. -/
inductive Reaches (s : List α) (k : ι) : ι → Prop
  | here : Reaches s k k
  | up {a : α} : a ∈ s → L.live a = true → Reaches s k (L.parent a) → Reaches s k (L.key a)

lemma Reaches.trans (h : Reaches L s k j) {i : ι} (h' : Reaches L s j i) : Reaches L s k i := by
  induction h' with
  | here => exact h
  | up ha hl _ ih => exact .up ha hl ih

lemma Reaches.of_thins (ht : Thins L s t) (h : Reaches L t k j) : Reaches L s k j := by
  induction h with
  | here => exact .here
  | up ha hl _ ih => exact .up (ht.mem ha hl) hl ih

lemma Reaches.ne_root (hs : Linked L s) {c : α} (hc : c ∈ s) (hl : L.live c = true)
    (h : Reaches L s (L.key c) j) : j ≠ L.root := by
  cases h with
  | here => exact hs.keyed c hc hl
  | up ha hla _ => exact hs.keyed _ ha hla

lemma Thins.mem_of_reaches (hs : Linked L s) (ht : Thins L s t) (hlt : Linked L t) {a b : α}
    (ha : a ∈ s) (hla : L.live a = true) (hb : b ∈ t) (hlb : L.live b = true)
    (h : Reaches L s (L.key a) (L.key b)) : a ∈ t := by
  generalize hj : L.key b = j at h
  induction h generalizing b with
  | here => exact hs.eq_of_key (ht.mem hb hlb) ha hlb hla hj ▸ hb
  | @up c hc hlc h ih =>
    obtain rfl := hs.eq_of_key (ht.mem hb hlb) hc hlb hlc hj
    obtain ⟨p, hp, hlp, hkp⟩ := hlt.closed b hb hlb (h.ne_root hs ha hla)
    exact ih hp hlp hkp

def below (L : Links α ι) (f : ι → ℕ) (k : ι) (s : List α) : ℕ :=
  s.countP fun a => L.live a && decide (f (L.key a) < f k)

lemma below_lt_below {f : ι → ℕ} {p : α} (hp : p ∈ s) (hl : L.live p = true)
    (h : f (L.key p) < f k) : below L f (L.key p) s < below L f k s := by
  refine countP_lt_countP (fun b hb => ?_) hp (by simp) (by simp [hl, h])
  simp only [Bool.and_eq_true, decide_eq_true_eq] at hb ⊢
  exact ⟨hb.1, hb.2.trans h⟩

lemma sweep_invariant {p : α → Bool} {act : ι → List α → Option (List α)} {I : List α → Prop}
    (hact : ∀ s t a, I s → a ∈ s → p a = true → act (L.key a) s = some t → I t) :
    ∀ (is : List ℕ) (s t : List α), I s → sweep L p act is s = some t → I t
  | [], s, t, hs, h => by
    cases h
    exact hs
  | i :: is, s, t, hs, h => by
    rw [sweep] at h
    split at h
    · exact sweep_invariant hact is s t hs h
    next a ha =>
      split at h
      next hp =>
        obtain ⟨u, hu, ht⟩ := Option.bind_eq_some_iff.1 h
        exact sweep_invariant hact is u t (hact s u a hs (mem_iff_getElem?.2 ⟨i, ha⟩) hp hu) ht
      next => exact sweep_invariant hact is s t hs h

variable [DecidableEq ι]

lemma revokeTree_thins : ∀ (depth : ℕ) (k : ι) (s t : List α),
    revokeTree L depth k s = some t → Thins L s t
  | 0, _, _, _, h => by cases h
  | depth + 1, k, s, t, h => by
    obtain ⟨u, hu, rfl⟩ := Option.map_eq_some_iff.1 h
    have hsu : Thins L s u := sweep_invariant
        (fun v w a hv _ _ hw => hv.trans (revokeTree_thins depth _ v w hw)) _ _ _
        (Thins.refl s) hu
    exact hsu.trans (thins_updateFirst L.live_retire u)

lemma revokeTree_keeps : ∀ (depth : ℕ) (k : ι) (s t : List α), revokeTree L depth k s = some t →
    ∀ b ∈ s, L.live b = true → ¬ Reaches L s k (L.key b) → b ∈ t
  | 0, _, _, _, h => by cases h
  | depth + 1, k, s, t, h => by
    intro b hb hl hr
    obtain ⟨u, hu, rfl⟩ := Option.map_eq_some_iff.1 h
    have hkeep : Thins L s u ∧ b ∈ u := by
      refine sweep_invariant (I := fun v => Thins L s v ∧ b ∈ v) ?_ _ _ _ ⟨Thins.refl s, hb⟩ hu
      rintro v w a ⟨hv, hbv⟩ ha hp hw
      refine ⟨hv.trans (revokeTree_thins depth _ v w hw), ?_⟩
      refine revokeTree_keeps depth (L.key a) v w hw b hbv hl fun hreach => hr ?_
      -- the child the walk stands at hangs from `k`
      rw [Links.hangs_iff] at hp
      have hchild : Reaches L s k (L.key a) := .up (hv.mem ha hp.1) hp.1 (hp.2 ▸ .here)
      exact hchild.trans (hreach.of_thins hv)
    rcases mem_updateFirst hkeep.2 with hb' | ⟨hb', -⟩
    · exact hb'
    · exact absurd ((Links.named_iff.1 hb').2 ▸ .here) hr

lemma sweep_revokeTree_keeps {p : α → Bool} {depth : List α → ℕ} {is : List ℕ} {b : α}
    (hlive : ∀ a, p a = true → L.live a = true) (hb : b ∈ s) (hl : L.live b = true)
    (hp : ∀ a ∈ s, L.live a = true → Reaches L s (L.key a) (L.key b) → p a = false)
    (h : sweep L p (fun k s => revokeTree L (depth s) k s) is s = some t) : b ∈ t := by
  refine (sweep_invariant (I := fun v => Thins L s v ∧ b ∈ v) ?_ _ _ _ ⟨Thins.refl s, hb⟩ h).2
  rintro v w a ⟨hv, hbv⟩ ha hpa hw
  refine ⟨hv.trans (revokeTree_thins _ _ v w hw), ?_⟩
  refine revokeTree_keeps _ (L.key a) v w hw b hbv hl fun hreach => ?_
  have hla := hlive a hpa
  rw [hp a (hv.mem ha hla) hla (hreach.of_thins hv)] at hpa
  cases hpa

variable (L) in
/-- The slot with a key, its parent, and so on; `n` bounds the walk. -/
def lineage (s : List α) : (n : ℕ) → ι → List α
  | 0, _ => []
  | n + 1, j =>
    match s.find? (L.named j) with
    | none => []
    | some a => a :: lineage s n (L.parent a)

lemma find_named (h : Linked L s) {a : α} (ha : a ∈ s) (hl : L.live a = true) :
    s.find? (L.named (L.key a)) = some a := by
  cases hf : s.find? (L.named (L.key a)) with
  | none => exact absurd (Links.named_iff.2 ⟨hl, rfl⟩) (find?_eq_none.1 hf a ha)
  | some c =>
    obtain ⟨hcl, hck⟩ := Links.named_iff.1 (find?_some hf)
    rw [h.eq_of_key (mem_of_find?_eq_some hf) ha hcl hl hck]

lemma mem_lineage_of_below {f : ι → ℕ} (hs : Linked L s) (hf : Ranked L f s) {c : α}
    (hc : c ∈ s) (hlc : L.live c = true) (h : Reaches L s (L.key c) j) {n : ℕ}
    (hn : below L f j s < n) : c ∈ lineage L s n j := by
  induction h generalizing n with
  | here =>
    obtain ⟨n, rfl⟩ := Nat.exists_eq_add_one.2 (Nat.zero_lt_of_lt hn)
    rw [lineage, find_named hs hc hlc]
    exact .head _
  | @up a ha hla hreach ih =>
    obtain ⟨n, rfl⟩ := Nat.exists_eq_add_one.2 (Nat.zero_lt_of_lt hn)
    rw [lineage, find_named hs ha hla]
    refine .tail _ (ih ?_)
    have hroot := hreach.ne_root hs hc hlc
    obtain ⟨p, hp, hlp, hkp⟩ := hs.closed a ha hla hroot
    have hlt := hf a ha hla hroot
    rw [← hkp] at hlt ⊢
    have := below_lt_below hp hlp hlt
    omega

lemma mem_lineage (hs : Linked L s) (hf : ∃ f, Ranked L f s) {c : α} (hc : c ∈ s)
    (hlc : L.live c = true) (h : Reaches L s (L.key c) j) :
    c ∈ lineage L s (s.length + 1) j := by
  obtain ⟨f, hf⟩ := hf
  exact mem_lineage_of_below hs hf hc hlc h (Nat.lt_succ_of_le countP_le_length)

end Lineage

end Forest
