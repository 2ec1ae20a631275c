import Mathlib.Data.List.Nodup
import Mathlib.Data.List.TakeWhile
import Mathlib.Data.List.Flatten

/-! # Maps given by extents

An extent sends a run of logical numbers to a run of physical numbers. A list of extents whose
logical runs do not overlap is a map, in any order. `Adds` says that one number was added to it and
`Cuts` that numbers at and past a bound were removed.
-/

lemma lt_of_mem_dropWhile {α : Type*} {f : α → ℕ} {k : ℕ} {l : List α}
    (h : l.Pairwise (fun a b => f a ≤ f b)) {c : α}
    (hc : c ∈ l.dropWhile (fun a => decide (f a ≤ k))) : k < f c := by
  induction l with
  | nil => simp at hc
  | cons x xs ih =>
    rw [List.pairwise_cons] at h
    rw [List.dropWhile_cons] at hc
    split at hc
    · exact ih h.2 hc
    next hx =>
    have hlt : k < f x := by simpa using hx
    rcases List.mem_cons.mp hc with rfl | hc
    · exact hlt
    · exact lt_of_lt_of_le hlt (h.1 c hc)

lemma le_of_mem_takeWhile {α : Type*} {f : α → ℕ} {k : ℕ} {l : List α} {c : α}
    (hc : c ∈ l.takeWhile (fun a => decide (f a ≤ k))) : f c ≤ k := by
  simpa using List.mem_takeWhile_imp hc

structure Extent where
  logical : ℕ
  physical : ℕ
  length : ℕ
  deriving DecidableEq, Repr

open List

namespace Extent

variable (e : Extent)

def stop : ℕ := e.logical + e.length

def covers (k : ℕ) : Bool := decide (e.logical ≤ k) && decide (k < e.stop)

def image (k : ℕ) : ℕ := e.physical + (k - e.logical)

def run : List ℕ := List.range' e.physical e.length

/-- What the first extent covering `k` sends it to. -/
def lookup (es : List Extent) (k : ℕ) : Option ℕ := (es.find? (·.covers k)).map (·.image k)

def blocks (es : List Extent) : List ℕ := es.flatMap run

def Apart (a b : Extent) : Prop := a.stop ≤ b.logical ∨ b.stop ≤ a.logical

/-- No extent is empty and no two overlap. -/
structure Map (es : List Extent) : Prop where
  apart : es.Pairwise Apart
  length_pos : ∀ e ∈ es, 0 < e.length

variable {e a b : Extent} {es fs es' fs' : List Extent} {k l p : ℕ}

@[simp] lemma covers_iff : e.covers k = true ↔ e.logical ≤ k ∧ k < e.stop := by
  simp [covers]

lemma Apart.symm (h : Apart a b) : Apart b a := Or.symm h

lemma mem_run : p ∈ e.run ↔ e.physical ≤ p ∧ p < e.physical + e.length := by
  simp [run, mem_range'_1]

@[simp] lemma blocks_nil : blocks [] = [] := rfl

@[simp] lemma blocks_cons : blocks (e :: es) = e.run ++ blocks es := rfl

@[simp] lemma blocks_append : blocks (es ++ fs) = blocks es ++ blocks fs := by
  simp [blocks]

lemma blocks_perm (h : es.Perm fs) : (blocks es).Perm (blocks fs) := h.flatMap_right _

@[simp] lemma lookup_nil : lookup [] k = none := rfl

lemma lookup_cons : lookup (e :: es) k = if e.covers k then some (e.image k) else lookup es k := by
  unfold lookup
  rw [find?_cons]
  split <;> simp_all

lemma lookup_eq_none : lookup es k = none ↔ ∀ e ∈ es, ¬ e.covers k = true := by
  simp [lookup]

lemma lookup_append : lookup (es ++ fs) k = (lookup es k).or (lookup fs k) := by
  unfold lookup
  rw [find?_append, Option.map_or]

namespace Map

lemma perm (h : Map es) (hp : es.Perm fs) : Map fs :=
  ⟨(hp.pairwise_iff Apart.symm).mp h.apart, fun e he => h.length_pos e (hp.mem_iff.mpr he)⟩

lemma tail (h : Map (e :: es)) : Map es :=
  ⟨(pairwise_cons.mp h.apart).2, fun _ hx => h.length_pos _ (.tail _ hx)⟩

/-- A logical number is covered by at most one extent, so the order of a map is no matter. -/
lemma lookup_eq_some (h : Map es) :
    lookup es k = some p ↔ ∃ e ∈ es, e.covers k = true ∧ e.image k = p := by
  induction es with
  | nil => simp
  | cons x xs ih =>
    rw [lookup_cons]
    split
    · next hx =>
      constructor
      · intro hp
        exact ⟨x, .head _, hx, Option.some.inj hp⟩
      rintro ⟨e, he, hk, rfl⟩
      rcases mem_cons.mp he with rfl | he
      · rfl
      have := (pairwise_cons.mp h.apart).1 e he
      rw [covers_iff] at hx hk
      rcases this with h₁ | h₁ <;> omega
    · next hx =>
      rw [ih h.tail]
      constructor
      · rintro ⟨e, he, hk⟩
        exact ⟨e, .tail _ he, hk⟩
      rintro ⟨e, he, hk⟩
      rcases mem_cons.mp he with rfl | he
      · exact absurd hk.1 hx
      · exact ⟨e, he, hk⟩

lemma lookup_perm (h : Map es) (hp : es.Perm fs) : lookup es = lookup fs := by
  funext k
  refine Option.ext fun p => ?_
  rw [h.lookup_eq_some, (h.perm hp).lookup_eq_some]
  simp only [hp.mem_iff]

end Map

/-- `es'` is the map `es` with `k` sent to `p` as well. -/
structure Adds (es es' : List Extent) (k p : ℕ) : Prop where
  map : Map es'
  lookup : ∀ l, lookup es' l = if l = k then some p else lookup es l
  blocks : (blocks es').Perm (p :: blocks es)

lemma Adds.perm (h : Adds es es' k p) (hm : Map es) (hp : es.Perm fs) (hp' : es'.Perm fs') :
    Adds fs fs' k p where
  map := h.map.perm hp'
  lookup l := by
    rw [← h.map.lookup_perm hp', ← hm.lookup_perm hp]
    exact h.lookup l
  blocks := (blocks_perm hp').symm.trans (h.blocks.trans ((blocks_perm hp).cons p))

lemma Adds.ne_nil (h : Adds es es' k p) : es' ≠ [] := by
  rintro rfl
  have := h.lookup k
  simp at this

lemma Adds.append (h : Adds es es' k p) (hk : Extent.lookup fs k = none)
    (hm : Map (fs ++ (es' ++ fs'))) : Adds (fs ++ (es ++ fs')) (fs ++ (es' ++ fs')) k p where
  map := hm
  lookup l := by
    simp only [lookup_append, h.lookup]
    by_cases hl : l = k
    · subst hl; simp [hk]
    · simp [hl]
  blocks := by
    simp only [blocks_append]
    refine ((h.blocks.append_right _).append_left _).trans ?_
    exact perm_middle

lemma adds_cons (h : Map es) (hk : lookup es k = none) : Adds es (⟨k, p, 1⟩ :: es) k p where
  map := by
    refine ⟨pairwise_cons.mpr ⟨fun x hx => ?_, h.apart⟩,
      forall_mem_cons.mpr ⟨Nat.one_pos, h.length_pos⟩⟩
    have hc := lookup_eq_none.mp hk x hx
    have := h.length_pos x hx
    rw [covers_iff] at hc
    unfold Apart
    simp only [stop] at hc ⊢
    omega
  lookup l := by
    rw [lookup_cons]
    by_cases hl : l = k
    · subst hl; simp [stop, image]
    have : ¬ covers ⟨k, p, 1⟩ l = true := by
      rw [covers_iff]; simp only [stop]; omega
    rw [if_neg this, if_neg hl]
  blocks := by simp [run]

lemma adds_grow (h : Map (e :: es)) (hk : e.logical + e.length = k)
    (hp : e.physical + e.length = p) (hn : lookup (e :: es) k = none) :
    Adds (e :: es) ({ e with length := e.length + 1 } :: es) k p where
  map := by
    have hap := pairwise_cons.mp h.apart
    have hpos := (forall_mem_cons.mp h.length_pos).2
    refine ⟨pairwise_cons.mpr ⟨fun x hx => ?_, hap.2⟩, forall_mem_cons.mpr ⟨Nat.succ_pos _, hpos⟩⟩
    have hc := lookup_eq_none.mp hn x (mem_cons_of_mem _ hx)
    have := hpos x hx
    rw [covers_iff] at hc
    have := hap.1 x hx
    unfold Apart at this ⊢
    simp only [stop] at *
    omega
  lookup l := by
    rw [lookup_cons, lookup_cons]
    by_cases hl : l = k
    · subst hl
      have : covers { e with length := e.length + 1 } l = true := by
        rw [covers_iff]; simp only [stop]; omega
      rw [if_pos this, if_pos rfl, ← hp]
      congr 1
      simp only [image]; omega
    · have : covers { e with length := e.length + 1 } l = e.covers l := by
        rw [Bool.eq_iff_iff, covers_iff, covers_iff]; simp only [stop]; omega
      rw [this, if_neg hl]
      rfl
  blocks := by
    rw [blocks_cons, blocks_cons, run, run, range'_concat, Nat.one_mul, hp, append_assoc]
    exact perm_middle

/-- `es'` is `es` without some numbers at or past `keep`; `freed` are their images. -/
structure Cuts (es es' : List Extent) (keep : ℕ) (freed : List ℕ) : Prop where
  map : Map es'
  below : ∀ k, k < keep → lookup es' k = lookup es k
  blocks : (blocks es).Perm (freed ++ blocks es')

namespace Cuts

variable {es'' : List Extent} {keep : ℕ} {freed freed' : List ℕ}

lemma refl (h : Map es) : Cuts es es keep [] := ⟨h, fun _ _ => rfl, .refl _⟩

lemma trans (h : Cuts es es' keep freed) (h' : Cuts es' es'' keep freed') :
    Cuts es es'' keep (freed ++ freed') where
  map := h'.map
  below k hk := (h'.below k hk).trans (h.below k hk)
  blocks := by
    rw [append_assoc]
    exact h.blocks.trans (h'.blocks.append_left _)

lemma append (h : Cuts es es' keep freed) (hm : Map (fs ++ es')) :
    Cuts (fs ++ es) (fs ++ es') keep freed where
  map := hm
  below k hk := by rw [lookup_append, lookup_append, h.below k hk]
  blocks := by
    rw [blocks_append, blocks_append]
    refine (h.blocks.append_left _).trans ?_
    rw [← append_assoc, ← append_assoc]
    exact perm_append_comm.append_right _

lemma perm (h : Cuts es es' keep freed) (hm : Map es) (hp : es.Perm fs) (hp' : es'.Perm fs') :
    Cuts fs fs' keep freed where
  map := h.map.perm hp'
  below k hk := by rw [← h.map.lookup_perm hp', ← hm.lookup_perm hp]; exact h.below k hk
  blocks := (blocks_perm hp).symm.trans (h.blocks.trans ((blocks_perm hp').append_left _))

end Cuts

variable {keep : ℕ}

lemma cuts_drop (h : Map (e :: es)) (he : keep ≤ e.logical) : Cuts (e :: es) es keep e.run where
  map := h.tail
  below k hk := by
    have : ¬ e.covers k = true := by rw [covers_iff]; omega
    rw [lookup_cons, if_neg this]
  blocks := .refl _

lemma cuts_shorten (h : Map (e :: es)) (hlo : e.logical < keep) (hhi : keep < e.stop) :
    Cuts (e :: es) ({ e with length := keep - e.logical } :: es) keep
      (List.range' (e.physical + (keep - e.logical)) (e.length - (keep - e.logical))) where
  map := by
    have hap := pairwise_cons.mp h.apart
    refine ⟨pairwise_cons.mpr ⟨fun x hx => ?_, hap.2⟩, forall_mem_cons.mpr
      ⟨Nat.sub_pos_of_lt hlo, (forall_mem_cons.mp h.length_pos).2⟩⟩
    have := hap.1 x hx
    unfold Apart stop at *
    dsimp only
    omega
  below k hk := by
    have : covers { e with length := keep - e.logical } k = e.covers k := by
      rw [Bool.eq_iff_iff, covers_iff, covers_iff]
      unfold stop at *
      dsimp only
      omega
    rw [lookup_cons, lookup_cons, this]
    rfl
  blocks := by
    rw [blocks_cons, blocks_cons, run, run, ← append_assoc]
    refine List.Perm.append_right _ ?_
    have hlen : e.length = (keep - e.logical) + (e.length - (keep - e.logical)) := by
      unfold stop at hhi; omega
    conv_lhs => rw [hlen, ← range'_append_1]
    exact perm_append_comm

lemma lookup_eq_none_of_stop_le (h : ∀ e ∈ es, e.stop ≤ keep) (hk : keep ≤ k) :
    lookup es k = none := by
  refine lookup_eq_none.mpr fun e he hc => ?_
  have := h e he
  rw [covers_iff] at hc
  omega

structure Sorted (es : List Extent) : Prop where
  ordered : es.Pairwise (fun a b => a.stop ≤ b.logical)
  length_pos : ∀ e ∈ es, 0 < e.length

lemma Sorted.map (h : Sorted es) : Map es := ⟨h.ordered.imp fun hab => .inl hab, h.length_pos⟩

lemma sorted_nil : Sorted [] := ⟨.nil, by simp⟩

lemma Map.sorted (h : Map es) (ho : es.Pairwise (fun a b => a.logical ≤ b.logical)) :
    Sorted es := by
  refine ⟨?_, h.length_pos⟩
  refine (h.apart.and ho).imp_of_mem fun {a b} ha hb hab => ?_
  have := h.length_pos b hb
  rcases hab.1 with h₁ | h₁
  · exact h₁
  have := hab.2
  unfold stop at h₁
  omega

lemma sorted_append : Sorted (es ++ fs) ↔
    Sorted es ∧ Sorted fs ∧ ∀ a ∈ es, ∀ b ∈ fs, a.stop ≤ b.logical := by
  constructor
  · rintro ⟨ho, hp⟩
    rw [pairwise_append] at ho
    exact ⟨⟨ho.1, fun e he => hp e (mem_append_left _ he)⟩,
      ⟨ho.2.1, fun e he => hp e (mem_append_right _ he)⟩, ho.2.2⟩
  rintro ⟨h₁, h₂, h₃⟩
  refine ⟨pairwise_append.mpr ⟨h₁.ordered, h₂.ordered, h₃⟩, fun e he => ?_⟩
  rcases mem_append.mp he with he | he
  exacts [h₁.length_pos e he, h₂.length_pos e he]

lemma sorted_cons : Sorted (e :: es) ↔ 0 < e.length ∧ Sorted es ∧ ∀ b ∈ es, e.stop ≤ b.logical := by
  rw [← singleton_append, sorted_append]
  constructor
  · rintro ⟨h₁, h₂, h₃⟩
    exact ⟨h₁.length_pos e (by simp), h₂, fun b hb => h₃ e (by simp) b hb⟩
  rintro ⟨h₁, h₂, h₃⟩
  refine ⟨⟨pairwise_singleton _ _, by simpa using h₁⟩, h₂, fun a ha b hb => ?_⟩
  obtain rfl := mem_singleton.mp ha
  exact h₃ b hb

/-- `Adds` between sorted maps, keeping bounds on either side of the new number. -/
structure SortedAdds (es es' : List Extent) (k p : ℕ) : Prop extends Adds es es' k p where
  sorted : Sorted es'
  low : ∀ lo, lo ≤ k → (∀ e ∈ es, lo ≤ e.logical) → ∀ e ∈ es', lo ≤ e.logical
  high : ∀ hi, k < hi → (∀ e ∈ es, e.stop ≤ hi) → ∀ e ∈ es', e.stop ≤ hi

variable {lo hi : List Extent}

lemma lookup_between (hlo : ∀ e ∈ lo, e.stop ≤ k) (hhi : ∀ e ∈ hi, k < e.logical) :
    lookup (lo ++ hi) k = none := by
  refine lookup_eq_none.mpr fun e he hc => ?_
  rw [covers_iff] at hc
  rcases mem_append.mp he with he | he
  · have := hlo e he; omega
  · have := hhi e he; omega

lemma sorted_insert (h : Sorted (lo ++ hi)) (hlo : ∀ e ∈ lo, e.stop ≤ k)
    (hhi : ∀ e ∈ hi, k < e.logical) : SortedAdds (lo ++ hi) (lo ++ ⟨k, p, 1⟩ :: hi) k p where
  toAdds := (adds_cons h.map (lookup_between hlo hhi)).perm h.map (.refl _) perm_middle.symm
  sorted := by
    obtain ⟨h₁, h₂, h₃⟩ := sorted_append.mp h
    refine sorted_append.mpr ⟨h₁, sorted_cons.mpr ⟨Nat.one_pos, h₂, hhi⟩, ?_⟩
    intro a ha b hb
    rcases mem_cons.mp hb with rfl | hb
    exacts [hlo a ha, h₃ a ha b hb]
  low m hm hes e he := by
    rcases mem_append.mp he with he | he
    · exact hes e (mem_append_left _ he)
    · rcases mem_cons.mp he with rfl | he
      exacts [hm, hes e (mem_append_right _ he)]
  high m hm hes e he := by
    rcases mem_append.mp he with he | he
    · exact hes e (mem_append_left _ he)
    · rcases mem_cons.mp he with rfl | he
      exacts [hm, hes e (mem_append_right _ he)]

lemma sorted_grow (h : Sorted (lo ++ e :: hi)) (hk : e.stop = k)
    (hp : e.physical + e.length = p) (hhi : ∀ x ∈ hi, k < x.logical) :
    SortedAdds (lo ++ e :: hi) (lo ++ { e with length := e.length + 1 } :: hi) k p := by
  obtain ⟨h₁, h₂, h₃⟩ := sorted_append.mp h
  obtain ⟨hpos, h₄, h₅⟩ := sorted_cons.mp h₂
  have hfree : lookup (lo ++ e :: hi) k = none := by
    have hlo : ∀ x ∈ lo ++ [e], x.stop ≤ k := by
      intro x hx
      rcases mem_append.mp hx with hx | hx
      · have := h₃ x hx e (.head _)
        unfold stop at *; omega
      · exact le_of_eq (mem_singleton.mp hx ▸ hk)
    have := lookup_between hlo hhi
    rwa [append_assoc] at this
  have hperm : ∀ x : Extent, (x :: (lo ++ hi)).Perm (lo ++ x :: hi) := fun x =>
    perm_middle.symm
  constructor
  · have hm : Map (e :: (lo ++ hi)) := h.map.perm (hperm e).symm
    refine (adds_grow hm hk hp ?_).perm hm (hperm e) (hperm _)
    rw [hm.lookup_perm (hperm e), hfree]
  · refine sorted_append.mpr ⟨h₁, sorted_cons.mpr ⟨Nat.succ_pos _, h₄, ?_⟩, ?_⟩
    · intro b hb
      have := hhi b hb
      simp only [stop] at hk ⊢
      omega
    intro a ha b hb
    rcases mem_cons.mp hb with rfl | hb
    · exact h₃ a ha e (.head _)
    · exact h₃ a ha b (.tail _ hb)
  · intro m _ hes x hx
    rcases mem_append.mp hx with hx | hx
    · exact hes x (mem_append_left _ hx)
    rcases mem_cons.mp hx with rfl | hx
    · exact hes e (by simp)
    · exact hes x (by simp [hx])
  · intro m hm hes x hx
    rcases mem_append.mp hx with hx | hx
    · exact hes x (mem_append_left _ hx)
    rcases mem_cons.mp hx with rfl | hx
    · simp only [stop] at hk ⊢; omega
    · exact hes x (by simp [hx])

lemma sorted_drop (h : Sorted (es ++ [e])) (he : keep ≤ e.logical) :
    Sorted es ∧ Cuts (es ++ [e]) es keep e.run := by
  refine ⟨(sorted_append.mp h).1, ?_⟩
  have hp := (perm_append_singleton e es).symm
  exact (cuts_drop (h.map.perm hp.symm) he).perm (h.map.perm hp.symm) hp (.refl _)

lemma sorted_shorten (h : Sorted (es ++ [e])) (hlo : e.logical < keep) (hhi : keep < e.stop) :
    Sorted (es ++ [{ e with length := keep - e.logical }]) ∧
      Cuts (es ++ [e]) (es ++ [{ e with length := keep - e.logical }]) keep
        (List.range' (e.physical + (keep - e.logical)) (e.length - (keep - e.logical))) := by
  have hp : ∀ x : Extent, (x :: es).Perm (es ++ [x]) := fun x =>
    (perm_append_singleton x es).symm
  constructor
  · obtain ⟨h₁, -, h₃⟩ := sorted_append.mp h
    refine sorted_append.mpr ⟨h₁, sorted_cons.mpr ⟨?_, sorted_nil, by simp⟩, ?_⟩
    · simp only; omega
    intro a ha b hb
    rw [mem_singleton.mp hb]
    exact h₃ a ha e (by simp)
  · exact (cuts_shorten (h.map.perm (hp e).symm) hlo hhi).perm (h.map.perm (hp e).symm)
      (hp e) (hp _)

end Extent
