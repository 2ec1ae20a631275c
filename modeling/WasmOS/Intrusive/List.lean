import Mathlib.Data.List.Nodup

/-! # Intrusive lists

Nodes linked in rings through two pointers each. A list is the ring of its head; a node in no list
is a ring of its own. Adding and deleting leave every ring without the nodes they rewrite as it was.
In a family of lists an item is on at most one of them.
-/

open List Function

namespace Intrusive

variable {ν : Type*}

structure Links (ν : Type*) where
  next : ν → ν
  prev : ν → ν

namespace Links

variable [DecidableEq ν] (L : Links ν)

def init (n : ν) : Links ν where
  next := update L.next n n
  prev := update L.prev n n

def isEmpty (h : ν) : Bool := L.next h = h

def addTail (h n : ν) : Links ν where
  next := update (update L.next n h) (L.prev h) n
  prev := update (update L.prev n (L.prev h)) h n

def del (n : ν) : Links ν where
  next := update (update L.next (L.prev n) (L.next n)) n n
  prev := update (update L.prev (L.next n) (L.prev n)) n n

end Links

/-- The pointers lead from `a` through a list of nodes to `b`, and back. -/
def Path (L : Links ν) : ν → List ν → ν → Prop
  | a, [], b => L.next a = b ∧ L.prev b = a
  | a, x :: xs, b => L.next a = x ∧ L.prev x = a ∧ Path L x xs b

/-- The list of a head. -/
def Ring (L : Links ν) (h : ν) (xs : List ν) : Prop := Path L h xs h

instance instDecidablePath [DecidableEq ν] (L : Links ν) : (a : ν) → (xs : List ν) → (b : ν) →
    Decidable (Path L a xs b)
  | a, [], b => inferInstanceAs (Decidable (L.next a = b ∧ L.prev b = a))
  | a, x :: xs, b =>
    haveI := instDecidablePath L x xs b
    inferInstanceAs (Decidable (L.next a = x ∧ L.prev x = a ∧ Path L x xs b))

variable {L L' : Links ν} {a b h h' n x : ν} {xs ys zs : List ν}

lemma path_append : Path L a (xs ++ x :: ys) b ↔ Path L a xs x ∧ Path L x ys b := by
  induction xs generalizing a with
  | nil => simp [Path, and_assoc]
  | cons y xs ih => simp [Path, ih, and_assoc]

lemma Path.congr (h : Path L a xs b) (hnext : ∀ y ∈ a :: xs, L'.next y = L.next y)
    (hprev : ∀ y ∈ xs ++ [b], L'.prev y = L.prev y) : Path L' a xs b := by
  induction xs generalizing a with
  | nil =>
    exact ⟨by rw [hnext a (by simp), h.1], by rw [hprev b (by simp), h.2]⟩
  | cons x xs ih =>
    refine ⟨by rw [hnext a (by simp), h.1], by rw [hprev x (by simp), h.2.1], ih h.2.2 ?_ ?_⟩
    · exact fun y hy => hnext y (.tail _ hy)
    · exact fun y hy => hprev y (.tail _ hy)

lemma Path.prev_mem (h : Path L a xs b) : L.prev b ∈ a :: xs := by
  induction xs generalizing a with
  | nil => exact h.2 ▸ .head _
  | cons x xs ih => exact .tail _ (ih h.2.2)

lemma Path.next_mem (h : Path L a xs b) : L.next a ∈ xs ++ [b] := by
  cases xs with
  | nil | cons => exact h.1 ▸ .head _

lemma Path.unique (h : Path L a xs b) (h' : Path L a ys b) (hb : b ∉ xs) (hb' : b ∉ ys) :
    xs = ys := by
  induction xs generalizing a ys with
  | nil =>
    cases ys with
    | nil => rfl
    | cons y ys => exact absurd (h'.1.symm.trans h.1 ▸ .head _) hb'
  | cons x xs ih =>
    cases ys with
    | nil => exact absurd (h.1.symm.trans h'.1 ▸ .head _) hb
    | cons y ys =>
      obtain rfl : x = y := h.1.symm.trans h'.1
      rw [ih h.2.2 h'.2.2 (not_mem_of_not_mem_cons hb) (not_mem_of_not_mem_cons hb')]

lemma Ring.isEmpty_iff [DecidableEq ν] (h : Ring L b xs) (hb : b ∉ xs) :
    L.isEmpty b = true ↔ xs = [] := by
  cases xs with
  | nil => simpa [Links.isEmpty] using h.1
  | cons x xs =>
    simp only [Links.isEmpty, decide_eq_true_eq, reduceCtorEq, iff_false]
    rw [h.1]
    rintro rfl
    exact hb (.head _)

lemma Ring.isEmpty_of_mem [DecidableEq ν] (h : Ring L b (xs ++ n :: ys))
    (hnodup : (b :: (xs ++ n :: ys)).Nodup) : L.isEmpty n = false := by
  simp only [Links.isEmpty, decide_eq_false_iff_not]
  intro heq
  have hmem := (path_append.1 h).2.next_mem
  rw [heq] at hmem
  simp only [nodup_cons, mem_append, mem_cons, not_or, nodup_append] at hnodup
  rcases mem_append.1 hmem with hy | hy
  · exact hnodup.2.2.1.1 hy
  · exact hnodup.1.2.1 (mem_singleton.1 hy).symm

lemma Ring.frame (h : Ring L b xs) (ts : List ν) (hts : ∀ y ∈ ts, y ∉ b :: xs)
    (hnext : ∀ y, y ∉ ts → L'.next y = L.next y) (hprev : ∀ y, y ∉ ts → L'.prev y = L.prev y) :
    Ring L' b xs := by
  refine Path.congr h (fun y hy => hnext y fun ht => hts y ht hy) fun y hy => hprev y fun ht => ?_
  refine hts y ht ?_
  rcases mem_append.1 hy with hy | hy
  · exact .tail _ hy
  · exact mem_singleton.1 hy ▸ .head _

variable [DecidableEq ν]

lemma ring_init : Ring (L.init n) n [] := ⟨update_self .., update_self ..⟩

lemma Ring.init (h : Ring L b xs) (hn : n ∉ b :: xs) : Ring (L.init n) b xs := by
  refine h.frame [n] (by simpa using hn) (fun y hy => ?_) fun y hy => ?_ <;>
    exact update_of_ne (by simpa using hy) ..

lemma Path.addTail (h : Path L a xs b) (hnodup : (a :: xs).Nodup) (hb : b ∉ xs)
    (hn : n ∉ a :: xs) (hnb : n ≠ b) : Path (L.addTail b n) a (xs ++ [n]) b := by
  induction xs generalizing a with
  | nil =>
    have hna : n ≠ a := by simpa using hn
    obtain ⟨rfl, hprev⟩ := h
    simp [Path, Links.addTail, hprev, hna, hnb]
  | cons x xs ih =>
    obtain ⟨hax, hnodup⟩ := nodup_cons.1 hnodup
    simp only [mem_cons, not_or] at hb hn
    obtain ⟨hnext, hprev, hrest⟩ := h
    -- the last node is behind `a`
    have hlast : a ≠ L.prev b := by
      intro heq
      exact hax (heq ▸ hrest.prev_mem)
    refine ⟨?_, ?_, ih hrest hnodup hb.2 (by simpa using hn.2)⟩
    · simp [Links.addTail, hlast, Ne.symm hn.1, hnext]
    · simp [Links.addTail, Ne.symm hb.1, Ne.symm hn.2.1, hprev]

lemma Ring.addTail (h : Ring L b xs) (hnodup : (b :: xs).Nodup) (hn : n ∉ b :: xs) :
    Ring (L.addTail b n) b (xs ++ [n]) :=
  Path.addTail h hnodup (nodup_cons.1 hnodup).1 hn (ne_of_not_mem_cons hn)

lemma Path.del (h : Path L a (xs ++ n :: ys) b) (hnodup : (a :: (xs ++ n :: ys)).Nodup)
    (hb : b ∉ xs ++ n :: ys) : Path (L.del n) a (xs ++ ys) b := by
  induction xs generalizing a with
  | nil =>
    obtain ⟨hnext, hprev, hrest⟩ := h
    simp only [nil_append, nodup_cons, mem_cons, not_or] at hnodup hb
    cases ys with
    | nil => simp [Path, Links.del, hprev, hrest.1, hnodup.1.1, hb.1]
    | cons y ys =>
      simp only [nodup_cons, mem_cons, not_or] at hnodup hb
      obtain ⟨⟨han, hay, hays⟩, ⟨hny, hnys⟩, hyys, -⟩ := hnodup
      refine ⟨?_, ?_, hrest.2.2.congr (fun z hz => ?_) fun z hz => ?_⟩
      · simp [Links.del, hprev, han, hrest.1]
      · simp [Links.del, hrest.1, Ne.symm hny, hprev]
      · have hzn : z ≠ n := by
          rintro rfl
          simp [hny, hnys] at hz
        have hza : z ≠ a := by
          rintro rfl
          simp [hay, hays] at hz
        simp [Links.del, hprev, hzn, hza]
      have hzn : z ≠ n := by
        rintro rfl
        simp [hnys, Ne.symm hb.1] at hz
      have hzy : z ≠ y := by
        rintro rfl
        simp [hyys, Ne.symm hb.2.1] at hz
      simp [Links.del, hrest.1, hzn, hzy]
  | cons x xs ih =>
    obtain ⟨hax, hnodup⟩ := nodup_cons.1 hnodup
    obtain ⟨hnext, hprev, hrest⟩ := h
    obtain ⟨hleft, hright⟩ := path_append.1 hrest
    have hxs : x ∉ xs ++ n :: ys := (nodup_cons.1 hnodup).1
    refine ⟨?_, ?_, ih hrest hnodup fun hmem => hb (.tail _ hmem)⟩
    · have han : a ≠ n := by
        rintro rfl
        simp at hax
      have hap : a ≠ L.prev n := by
        intro heq
        exact hax (mem_append_left (n :: ys) (heq ▸ hleft.prev_mem : a ∈ x :: xs))
      simp [Links.del, han, hap, hnext]
    have hxn : x ≠ n := by
      rintro rfl
      simp at hxs
    have hxq : x ≠ L.next n := by
      intro heq
      rcases mem_append.1 (heq ▸ hright.next_mem : x ∈ ys ++ [b]) with hy | hy
      · exact hxs (mem_append_right _ (.tail _ hy))
      · exact hb (mem_singleton.1 hy ▸ .head _)
    simp [Links.del, hxn, hxq, hprev]

lemma Ring.del (h : Ring L b (xs ++ n :: ys)) (hnodup : (b :: (xs ++ n :: ys)).Nodup) :
    Ring (L.del n) b (xs ++ ys) := Path.del h hnodup (nodup_cons.1 hnodup).1

lemma ring_del : Ring (L.del n) n [] := ⟨update_self .., update_self ..⟩

lemma Ring.frame_addTail (h : Ring L b xs) (hring : Ring L a ys)
    (hdisj : ∀ y ∈ a :: ys, y ∉ b :: xs) (hn : n ∉ b :: xs) : Ring (L.addTail a n) b xs := by
  have hlast : L.prev a ∉ b :: xs := hdisj _ hring.prev_mem
  have ha : a ∉ b :: xs := hdisj a (.head _)
  refine h.frame [n, a, L.prev a] (by simp_all) (fun y hy => ?_) fun y hy => ?_
  · simp only [mem_cons, not_mem_nil, or_false, not_or] at hy
    simp [Links.addTail, hy.1, hy.2.2]
  · simp only [mem_cons, not_mem_nil, or_false, not_or] at hy
    simp [Links.addTail, hy.1, hy.2.1]

lemma Ring.frame_del (h : Ring L b xs) (hring : Ring L a (ys ++ n :: zs))
    (hdisj : ∀ y ∈ a :: (ys ++ n :: zs), y ∉ b :: xs) : Ring (L.del n) b xs := by
  obtain ⟨hleft, hright⟩ := path_append.1 hring
  have hn : n ∉ b :: xs := hdisj n (by simp)
  have hprev : L.prev n ∉ b :: xs := by
    refine hdisj _ ?_
    rcases mem_cons.1 hleft.prev_mem with hp | hp <;> simp [hp]
  have hnext : L.next n ∉ b :: xs := by
    refine hdisj _ ?_
    rcases mem_append.1 hright.next_mem with hp | hp
    · simp [hp]
    · simp [mem_singleton.1 hp]
  refine h.frame [n, L.prev n, L.next n] (by simp_all) (fun y hy => ?_) fun y hy => ?_
  · simp only [mem_cons, not_mem_nil, or_false, not_or] at hy
    simp [Links.del, hy.1, hy.2.1]
  · simp only [mem_cons, not_mem_nil, or_false, not_or] at hy
    simp [Links.del, hy.1, hy.2.2]

inductive Node (ι τ : Type*)
  | head (e : ι)
  | node (t : τ)
  deriving DecidableEq, Repr

variable {ι τ : Type*} {L : Links (Node ι τ)} {q : ι → List τ} {e : ι} {t : τ} {ts : List τ}

structure Family (L : Links (Node ι τ)) (q : ι → List τ) : Prop where
  ring : ∀ e, Ring L (.head e) ((q e).map .node)
  alone : ∀ t, (∀ e, t ∉ q e) → Ring L (.node t) []
  nodup : ∀ e, (q e).Nodup
  single : ∀ e e' t, t ∈ q e → t ∈ q e' → e = e'

namespace Family

lemma nodup_ring (h : Family L q) (e : ι) :
    (Node.head e :: (q e).map (Node.node : τ → Node ι τ)).Nodup := by
  refine nodup_cons.2 ⟨by simp, (h.nodup e).map fun _ _ heq => ?_⟩
  cases heq
  rfl

lemma next_head (h : Family L q) (hq : q e = t :: ts) : L.next (.head e) = .node t := by
  have hring := h.ring e
  rw [hq] at hring
  exact hring.1

lemma next_del [DecidableEq ι] [DecidableEq τ] (h : Family L q) (hq : q e = t :: ts) :
    (L.del (.node t)).next (.head e) = L.next (.node t) := by
  have hring := h.ring e
  rw [hq] at hring
  have hprev := hring.2.1
  simp [Links.del, hprev]

lemma disjoint_ring (h : Family L q) {e e' : ι} (hne : e ≠ e') (y : Node ι τ)
    (hy : y ∈ .head e :: (q e).map .node) : y ∉ .head e' :: (q e').map Node.node := by
  intro hy'
  cases y with
  | head i =>
    simp only [mem_cons, Node.head.injEq, mem_map, reduceCtorEq, and_false,
      exists_false, or_false] at hy hy'
    exact hne (hy.symm.trans hy')
  | node t =>
    simp only [mem_cons, reduceCtorEq, mem_map, Node.node.injEq, exists_eq_right,
      false_or] at hy hy'
    exact hne (h.single e e' t hy hy')

lemma disjoint_alone (ht : t ∉ q e) (y : Node ι τ)
    (hy : y ∈ .head e :: (q e).map .node) : y ∉ [Node.node t] := by
  simp only [mem_singleton]
  rintro rfl
  simp only [mem_cons, reduceCtorEq, mem_map, Node.node.injEq, exists_eq_right, false_or] at hy
  exact ht hy

variable [DecidableEq ι] [DecidableEq τ]

lemma isEmpty_head (h : Family L q) (e : ι) : L.isEmpty (.head e) = true ↔ q e = [] := by
  rw [(h.ring e).isEmpty_iff (nodup_cons.1 (h.nodup_ring e)).1, map_eq_nil_iff]

lemma isEmpty_node (h : Family L q) (t : τ) : L.isEmpty (.node t) = true ↔ ∀ e, t ∉ q e := by
  constructor
  · intro hempty e ht
    obtain ⟨xs, ys, hq⟩ := append_of_mem ht
    have hring := h.ring e
    have hnodup := h.nodup_ring e
    rw [hq, map_append, map_cons] at hring hnodup
    rw [hring.isEmpty_of_mem hnodup] at hempty
    cases hempty
  · intro ht
    exact ((h.alone t ht).isEmpty_iff (by simp)).2 rfl

lemma init (h : Family L q) (ht : ∀ e, t ∉ q e) : Family (L.init (.node t)) q where
  ring e := (h.ring e).init (by simpa using ht e)
  alone t' ht' := by
    by_cases heq : t' = t
    · subst heq
      exact ring_init
    · exact (h.alone t' ht').init (by simpa using Ne.symm heq)
  nodup := h.nodup
  single := h.single

omit [DecidableEq τ] in
lemma mem_update_append {e' : ι} {t' : τ} :
    t' ∈ update q e (q e ++ [t]) e' ↔ t' ∈ q e' ∨ e' = e ∧ t' = t := by
  by_cases heq : e' = e
  · subst heq
    simp
  · simp [heq]

lemma mem_update_erase (h : Family L q) (ht : t ∈ q e) {e' : ι} {t' : τ} :
    t' ∈ update q e ((q e).erase t) e' ↔ t' ∈ q e' ∧ t' ≠ t := by
  by_cases heq : e' = e
  · subst heq
    rw [update_self, (h.nodup e').mem_erase_iff, and_comm]
  rw [update_of_ne heq]
  constructor
  · intro ht'
    refine ⟨ht', ?_⟩
    rintro rfl
    exact heq (h.single e' e t' ht' ht)
  · exact And.left

lemma addTail (h : Family L q) (ht : ∀ e, t ∉ q e) :
    Family (L.addTail (.head e) (.node t)) (update q e (q e ++ [t])) where
  ring e' := by
    by_cases heq : e' = e
    · subst heq
      rw [update_self, map_append]
      exact (h.ring e').addTail (h.nodup_ring e') (by simpa using ht e')
    rw [update_of_ne heq]
    exact (h.ring e').frame_addTail (h.ring e) (h.disjoint_ring (Ne.symm heq))
      (by simpa using ht e')
  alone t' ht' := by
    have hoff : ∀ e', t' ∉ q e' := fun e' hmem => ht' e' (mem_update_append.2 (.inl hmem))
    have hne : t' ≠ t := fun heq => ht' e (mem_update_append.2 (.inr ⟨rfl, heq⟩))
    exact (h.alone t' hoff).frame_addTail (h.ring e) (disjoint_alone (hoff e))
      (by simpa using Ne.symm hne)
  nodup e' := by
    by_cases heq : e' = e
    · subst heq
      rw [update_self]
      exact List.Nodup.append (h.nodup e') (by simp) (by simpa using ht e')
    · rw [update_of_ne heq]
      exact h.nodup e'
  single e₁ e₂ t' h₁ h₂ := by
    rw [mem_update_append] at h₁ h₂
    rcases h₁ with h₁ | ⟨rfl, rfl⟩
    · rcases h₂ with h₂ | ⟨rfl, rfl⟩
      · exact h.single e₁ e₂ t' h₁ h₂
      · exact absurd h₁ (ht e₁)
    rcases h₂ with h₂ | ⟨rfl, -⟩
    · exact absurd h₂ (ht e₂)
    · rfl

lemma del (h : Family L q) (ht : t ∈ q e) :
    Family (L.del (.node t)) (update q e ((q e).erase t)) := by
  obtain ⟨xs, ys, hq⟩ := append_of_mem ht
  have hring := h.ring e
  have hnodup := h.nodup_ring e
  rw [hq, map_append, map_cons] at hring hnodup
  have herase : (q e).erase t = xs ++ ys := by
    have hxs : t ∉ xs := by
      have := h.nodup e
      rw [hq] at this
      exact fun hmem => (nodup_append.1 this).2.2 t hmem t (.head _) rfl
    rw [hq, erase_append_right _ hxs, erase_cons_head]
  refine ⟨fun e' => ?_, fun t' ht' => ?_, fun e' => ?_, fun e₁ e₂ t' h₁ h₂ => ?_⟩
  · by_cases heq : e' = e
    · subst heq
      rw [update_self, herase, map_append]
      exact hring.del hnodup
    rw [update_of_ne heq]
    refine (h.ring e').frame_del hring fun y hy => h.disjoint_ring (Ne.symm heq) y ?_
    rwa [hq, map_append, map_cons]
  · by_cases htt : t' = t
    · subst htt
      exact ring_del
    have hoff : ∀ e', t' ∉ q e' := fun e' hmem =>
      ht' e' ((h.mem_update_erase ht).2 ⟨hmem, htt⟩)
    refine (h.alone t' hoff).frame_del hring fun y hy => disjoint_alone (hoff e) y ?_
    rwa [hq, map_append, map_cons]
  · by_cases heq : e' = e
    · subst heq
      rw [update_self]
      exact (h.nodup e').erase t
    · rw [update_of_ne heq]
      exact h.nodup e'
  · rw [h.mem_update_erase ht] at h₁ h₂
    exact h.single e₁ e₂ t' h₁.1 h₂.1

end Family

end Intrusive
